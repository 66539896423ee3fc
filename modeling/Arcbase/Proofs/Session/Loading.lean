import Arcbase.Proofs.Session.Roundtrip
import Arcbase.Proofs.Snapshot.Json
import Arcbase.Session.Workspace
set_option autoImplicit false

/-!
# Exports that are loaded

The text of the snapshot of a graph is loaded into any workspace under any name, as a graph
with the name and the snapshot of the one it comes from (`load_export`).  That needs all
properties and vectors in it to be such as a reader takes.  Not all are: a property may be any
float, though a vector may not, and what is not finite is written as null and not read
(`not_load_infinite`); lists may be nested deeper than a reader goes.
-/

namespace Arcbase

open Arcbase.Action Store

/-! ## Graphs of a workspace -/

namespace Workspace

/-- The session of a named graph, under its label tables. -/
def session? (w : Workspace) (name : String) : Option Session := do
  let g ← w.graph? name
  let labels ← w.tables[g.tables]?
  return { g.session with store := { g.session.store with labels } }

variable {w : Workspace} {name : String} {s : Session} {α : Type}

theorem session?_create (w : Workspace) (name : String) (config : Config) (ownTables : Bool) :
    (w.create name config ownTables).session? name =
      some (.new config (.withCapacity config.maxRelationships config.maxVertexTypes)) := by
  simp only [session?, graph?, place?, create, addGraph, AssocMap.get?_insert, if_true,
    Option.bind_some, Array.getElem?_push_size, Option.bind_eq_bind, Option.pure_def]
  rfl

theorem session?_eq_some_iff : w.session? name = some s ↔
    ∃ place g labels, w.place? name = some place ∧ w.graphs[place]? = some g ∧
      w.tables[g.tables]? = some labels ∧
      { g.session with store := { g.session.store with labels } } = s := by
  simp only [session?, graph?, Option.bind_eq_bind, Option.pure_def, Option.bind_eq_some_iff,
    Option.some.injEq]
  constructor
  · rintro ⟨g, ⟨place, hplace, hat⟩, labels, htable, hsession⟩
    exact ⟨place, g, labels, hplace, hat, htable, hsession⟩
  · rintro ⟨place, g, labels, hplace, hat, htable, hsession⟩
    exact ⟨g, ⟨place, hplace, hat⟩, labels, htable, hsession⟩

/-- What is done to a named graph is done to its session. -/
theorem on_eq (h : w.session? name = some s) (f : Session → α × Session) :
    ∃ w', w.on name f = some ((f s).1, w') ∧ w'.session? name = some (f s).2 := by
  obtain ⟨place, g, labels, hplace, hat, htable, hsession⟩ := session?_eq_some_iff.1 h
  have hset : ∀ {β : Type} {xs : Array β} {i : Nat} {x y : β}, xs[i]? = some y →
      (xs.set! i x)[i]? = some x := by
    intro β xs i x y hy
    rw [Array.set!_eq_setIfInBounds, Array.getElem?_setIfInBounds_self_of_lt]
    exact (Array.getElem?_eq_some_iff.1 hy).1
  refine ⟨{ w with
    graphs := w.graphs.set! place { g with session := (f s).2 }
    tables := w.tables.set! g.tables (f s).2.store.labels }, ?_, session?_eq_some_iff.2
      ⟨place, { g with session := (f s).2 }, (f s).2.store.labels, hplace, ?_, ?_, rfl⟩⟩
  · simp only [on, onGraph, hplace, hat, htable, Option.bind_eq_bind, Option.bind_some,
      Option.pure_def, hsession]
  · exact hset hat
  · exact hset htable

/-- A text that is no snapshot leaves a workspace as it is. -/
theorem load_of_malformed {text : String} {e : Error} (h : Snapshot.parse text = .error e)
    (w : Workspace) (name : String) (thread : Thread) (config : Config) :
    w.load name thread config text = (.error e, w) := by
  rw [load, h]

/-- A snapshot that an empty graph restores is loaded. -/
theorem load_of_restored {text : String} {snapshot : Snapshot} {config : Config}
    {thread : Thread} {r : Session} (h : Snapshot.parse text = .ok snapshot)
    (hrestored : (Session.new { config with name := snapshot.name }
      (.withCapacity config.maxRelationships config.maxVertexTypes)).ask (w.caller thread)
        (.restore snapshot) = (.ok (), r)) :
    ∃ loaded, w.load name thread config text = (.ok snapshot.name, loaded) ∧
      loaded.session? name = some r := by
  have hcreated := session?_create w name { config with name := snapshot.name } true
  obtain ⟨loaded, hon, hsession⟩ := on_eq hcreated fun s =>
    s.ask (w.caller thread) (.restore snapshot)
  rw [hrestored] at hon hsession
  refine ⟨loaded, ?_, hsession⟩
  have hask : (w.create name { config with name := snapshot.name } true).ask name thread
      (.restore snapshot) = some (.ok (), loaded) := hon
  rw [load, h]
  simp only [hask]

end Workspace

/-! ## Exports -/

/-- Limits that leave room for all of a graph. -/
structure Config.Admits (config : Config) (s : Store) : Prop where
  identifiers : s.config.maxIdentifierLength ≤ config.maxIdentifierLength
  relationships : s.labels.relationships.capacity ≤ config.maxRelationships
  types : s.labels.types.capacity ≤ config.maxVertexTypes

/-- Whether a reader takes the properties and the vector of a vertex of a whole graph. -/
def VertexSnapshot.isReadable (v : VertexSnapshot) : Bool := v.readable (Json.nestingLimit - 4)

variable {ok : Operation → Prop} {s : Session} {who : Caller} {snapshot : Snapshot}

/-- A snapshot that is taken of a graph is its snapshot. -/
theorem Arises.eq_toSnapshot (hs : Arises ok s) (h : (s.ask who .snapshot).1 = .ok snapshot) :
    snapshot = s.store.toSnapshot := by
  have hsound := hs.reach.sound
  have htold : Told s.store.toSnapshot (¬ s.store.OpenTo s.guards who.thread)
      (s.ask who .snapshot).1 :=
    Session.told_of_answers hsound .snapshot (answers_snapshot hsound.store.placed)
  rw [h] at htold
  exact Except.ok.inj (htold.resolve_right fun hrefused => nomatch hrefused.2)

/-- The reals of all arcs of a graph are finite. -/
theorem Arises.isFinite_arcs (hs : Arises ok s) {a : ArcSnapshot}
    (ha : a ∈ s.store.toSnapshot.arcs) : a.value.isFinite = true := by
  have hfits := fits_toSnapshot hs.reach.sound.store hs.lawful hs.labels (Nat.le_refl _)
  have htyped := ArcKind.allows_iff_typed.1 (hfits.valued a ha)
  cases hv : a.value with
  | real r => exact htyped.finite r hv
  | _ => rfl

theorem Arises.readable_toSnapshot (hs : Arises ok s) :
    s.store.toSnapshot.readable = s.store.toSnapshot.vertices.all (·.isReadable) := by
  have harcs : s.store.toSnapshot.arcs.all (·.value.isFinite) = true :=
    List.all_eq_true.2 fun _ ha => hs.isFinite_arcs ha
  rw [Snapshot.readable, harcs, Bool.and_true]
  rfl

/-- What is exported of a graph, of which the texts of numbers and instants read back, is
loaded under limits that leave room for it: as a graph with the same name and the same
snapshot, if all properties and vectors are readable, and not at all if one is not. -/
theorem load_export (hs : Arises ok s) (hexport : (s.ask who .snapshot).1 = .ok snapshot)
    (hexact : snapshot.ReadsBack) {config : Config} (hconfig : config.Admits s.store)
    (w : Workspace) (name : String) (thread : Thread) :
    ((∀ v ∈ snapshot.vertices, v.isReadable = true) →
      ∃ loaded r, w.load name thread config snapshot.exportText =
          (.ok s.store.config.name, loaded) ∧
        loaded.session? name = some r ∧
        r.store.config = { config with name := s.store.config.name } ∧
        ∀ reader, (r.ask reader .snapshot).1 = .ok snapshot) ∧
      ∀ v ∈ snapshot.vertices, v.isReadable = false →
        w.load name thread config snapshot.exportText = (.error (.data .malformed), w) := by
  obtain rfl := hs.eq_toSnapshot hexport
  have hparse := Snapshot.parse_exportText hexact
  rw [hs.readable_toSnapshot] at hparse
  refine ⟨fun hall => ?_, fun v hv hunreadable => ?_⟩
  · rw [if_pos (List.all_eq_true.2 hall)] at hparse
    have hnew : Arises (fun _ => True) (.new { config with name := s.store.config.name }
        (.withCapacity config.maxRelationships config.maxVertexTypes)) := .start _ _ _ .refl
    obtain ⟨r, hrestored, hr, hsame, hfilled, hslots, hopen⟩ := hs.refilled hnew rfl rfl
      hconfig.identifiers (Labels.suits_withCapacity hconfig.relationships hconfig.types)
      (w.caller thread)
    obtain ⟨loaded, hloaded, hsession⟩ := Workspace.load_of_restored hparse hrestored
    refine ⟨loaded, r, hloaded, hsession, hsame, fun reader => ?_⟩
    have hsound := hs.reach.sound
    have halike := hfilled.alike hsound.store hs.lawful.named hslots hr.lawful.named
    rw [halike.toSnapshot_eq hsound.store hslots hs.lawful.named hr.lawful.named
      (congrArg Config.name hsame).symm]
    exact Session.ask_of_answers hr.reach.sound .snapshot
      (answers_toSnapshot (hopen _) hslots.placed)
  · refine Workspace.load_of_malformed (hparse.trans (if_neg fun hall => ?_)) w name thread config
    rw [List.all_eq_true.1 hall v hv] at hunreadable
    cases hunreadable

/-- A vertex with a property. -/
def described (value : PropertyValue) : Session :=
  (Operation.close "h").after ⟨⟨"m"⟩, 7⟩
    ((Operation.askHandle "h" (.setProperty "p" value)).after ⟨⟨"m"⟩, 6⟩
      ((Operation.openVertex "h" "a" .write).after ⟨⟨"m"⟩, 5⟩
        (.new {} (.withCapacity 16383 255))))

/-- The snapshot of that vertex. -/
def description (value : PropertyValue) : Snapshot :=
  { name := "graph"
    vertices :=
      [{ id := "a"
         created := 5
         modified := 6
         properties := PropertyMap.empty.insert "p" value }] }

section Described

variable {value : PropertyValue}

theorem arises_described (value : PropertyValue) : Arises Operation.Live (described value) :=
  (((Arises.start {} 16383 255 .refl).step _ _ trivial).step _ _ trivial).step _ _ trivial

theorem snapshot_described (value : PropertyValue) :
    ((described value).ask ⟨⟨"m"⟩, 8⟩ .snapshot).1 = .ok (description value) := by
  set_option maxRecDepth 10000 in
  cbv

theorem admits_described (value : PropertyValue) : Config.Admits {} (described value).store := by
  set_option maxRecDepth 10000 in
  constructor <;> cbv

theorem readsBack_description (h : value.ReadsBack) : (description value).ReadsBack := by
  refine ⟨fun v hv => ?_, fun a ha => absurd ha List.not_mem_nil⟩
  obtain rfl := List.mem_singleton.1 hv
  refine ⟨fun p hp => ?_, nofun⟩
  obtain rfl := List.mem_singleton.1 hp
  exact h

theorem isReadable_description {v : VertexSnapshot} (hv : v ∈ (description value).vertices) :
    v.isReadable = (value.isFinite && decide (value.nesting ≤ 123)) := by
  obtain rfl := List.mem_singleton.1 hv
  exact (Bool.and_true _).trans (Bool.and_true _)

end Described

/-- A tenth, in a list. -/
def tenth : PropertyValue := .list [.float (.ofBits 4591870180066957722)]

theorem readsBack_tenth : tenth.ReadsBack := by
  refine ⟨fun _ => ⟨?_, ?_⟩, trivial⟩
  · unfold Json.Literal
    decide +kernel
  · decide +kernel

theorem load_export_tenth : ∃ loaded r,
    Workspace.load { clock := 9 } "copy" ⟨"u"⟩ {} (description tenth).exportText =
        (.ok (described tenth).store.config.name, loaded) ∧
      loaded.session? "copy" = some r ∧
      r.store.config = { name := (described tenth).store.config.name } ∧
      ∀ reader, (r.ask reader .snapshot).1 = .ok (description tenth) :=
  (load_export (arises_described tenth) (snapshot_described tenth)
    (readsBack_description readsBack_tenth) (admits_described tenth) { clock := 9 } "copy"
      ⟨"u"⟩).1 fun v hv => (isReadable_description hv).trans (by decide +kernel)

/-- A graph with an infinite property is exported, but not loaded. -/
theorem not_load_infinite :
    ¬ ∀ s : Session, Arises Operation.Live s → ∀ (who : Caller) (snapshot : Snapshot),
      (s.ask who .snapshot).1 = .ok snapshot → snapshot.ReadsBack →
        ∀ config : Config, config.Admits s.store → ∀ (w : Workspace) (name : String)
          (thread : Thread), ∃ loaded,
            w.load name thread config snapshot.exportText = (.ok s.store.config.name, loaded) := by
  intro hall
  have hexact : (description (.float (.infinite false))).ReadsBack := readsBack_description nofun
  obtain ⟨loaded, hloaded⟩ := hall _ (arises_described (.float (.infinite false))) ⟨⟨"m"⟩, 8⟩ _
    (snapshot_described _) hexact {} (admits_described _) { clock := 9 } "copy" ⟨"u"⟩
  have hparse := Snapshot.parse_exportText hexact
  have hunreadable : (description (.float (.infinite false))).readable = false := by
    decide +kernel
  rw [hunreadable] at hparse
  rw [Workspace.load_of_malformed hparse] at hloaded
  cases hloaded

end Arcbase
