import Arcbase.Proofs.Labels.Sharing
import Arcbase.Proofs.Query.Alongside
import Arcbase.Proofs.Session.Arising
import Arcbase.Proofs.Session.Balanced
import Arcbase.Proofs.Session.Confined
import Arcbase.Session.Workspace
set_option autoImplicit false

/-!
# Graphs that share label tables

In every graph that arises the types and the arcs that are stored have their labels
(`Arises.typesNamed`, `Arises.arcsNamed`).  So the graph is legible under whatever becomes of
its label tables (`Arises.legibleUnder`), and a request that only reads has the same answer
before and after others have added labels (`Store.LegibleUnder.ask_eq`).

What happens in a workspace is a run of events (`Workspace.Event`): graphs come and work, and
tables are accessed.  Every event adds labels at most (`Workspace.InOrder.after`), so in every
run labels and codes are stable, and so are the labels that a graph shows
(`Workspace.labels_stable`).
-/

namespace Arcbase

open Arcbase.Action Store

variable {α : Type} {agree : Agreement} {G : List Guard} {who : Caller}

/-! ## Types -/

section Types

variable {s s' : Store}

/-- A request of a graph in use gives no type without its label. -/
theorem namesTypes_request {r : Request α} (hr : r.isRestore = false) {out : Except Error α}
    (hs : s.Sound agree) (hg : s.Guarded G) (hl : s.labels.Valid)
    (hrun : (r.action who).run s = (out, s')) : NamesTypes s s' := by
  by_cases hplain : r.connectsOrReads = true
  · exact ((tolerates_namesTypes agree who.now).connectsOrReads
      (fun r u _ => writes_namesTypes agree who.now r u) hplain hs hg hl hrun).2
  cases r with
  | create id type => exact ((create_namesTypes id type).keeps hs hl hrun).2
  | delete id => exact (run_delete hs hg hrun).namesTypes
  | disconnect anchor probe neighbor => exact (run_disconnect hs hg hrun).namesTypes
  | markExpiring id time => exact namesTypes_markExpiring hg hrun
  | runExpiration time => exact namesTypes_runExpiration hs hg hrun
  | restore snapshot => cases hr
  | _ => exact absurd rfl hplain

/-- Every type that a restore gives has been encoded with its vertex. -/
theorem ArcsStaged.typesNamed {vertices : List VertexSnapshot} {arcs : List ArcSnapshot}
    {g : Staging} {l : Labels} (h : ArcsStaged s vertices arcs g l) (hg : s.labels.Grows l)
    (hold : s.TypesNamed) : (g.commit { s with labels := l }).TypesNamed := by
  intro c code htype
  rw [g.labels_commit]
  by_cases hc : c < (g.commit { s with labels := l }).cells.size
  · rcases g.cell_commit_cases { s with labels := l } hc with ⟨_, hsame⟩ | ⟨key, hcell⟩
    · rw [data, hsame] at htype
      obtain ⟨label, hlabel⟩ := hold c code htype
      exact ⟨label, hg.types_keeps code label hlabel⟩
    · exact h.enrolled.typed key _ hcell code htype
  · rw [data_of_size_le (Nat.le_of_not_lt hc)] at htype
    cases htype

end Types

variable {ok : Operation → Prop} {s : Session} {l : Labels}

theorem Operation.namesTypes (hs : s.Sound agree) (hl : s.store.labels.Valid) (op : Operation)
    (hlive : op.Live) : NamesTypes s.store (op.after who s).store := by
  refine ((tolerates_namesTypes agree who.now).after hs.store hl op ?_ ?_).2
  · rintro α r rfl
    exact keeps_of_namesTypes hl (namesTypes_request hlive hs.store hs.guarded hl rfl)
  · exact fun name g time _ _ => keeps_of_namesTypes hl (namesTypes_setExpiration g time s.store)

/-- Whatever type a vertex has, its label is there. -/
theorem Arises.typesNamed (h : Arises ok s) : s.store.TypesNamed := by
  induction h with
  | start config => exact fun c code htype => nomatch htype
  | @step s before who op _ ih =>
    have hs := before.reach.sound
    by_cases hlive : op.Live
    · exact ih.names (op.namesTypes hs before.labels hlive)
    · cases op with
      | ask r =>
        cases r with
        | restore snapshot =>
          cases hrun : (Action.restore snapshot).run s.store with
          | mk r s' =>
            have hafter : ((Operation.ask (.restore snapshot)).after who s).store = s' :=
              congrArg Prod.snd hrun
            rw [hafter]
            rcases fill_restore (kept_staged snapshot before.labels) hrun with
              ⟨_, _, l, hgrows, rfl⟩ | ⟨_, _, g, l, hgrows, hstaged, rfl⟩
            · exact ih.names (namesTypes_of_cells hgrows rfl)
            · exact hstaged.typesNamed hgrows ih
        | _ => exact absurd rfl hlive
      | _ => exact absurd trivial hlive
  | relabel _ grown ih => exact ih.names (namesTypes_of_cells grown rfl)

/-! ## Arcs -/

/-- An arc on the inbound side has the slot, and so the label, of one on the outbound side. -/
theorem Store.Named.arcsNamed {s : Store} (h : s.Named) (hs : s.Sound .slots) : s.ArcsNamed := by
  have hout : ∀ c, s.Live c → ∀ n, ∀ a ∈ (s.data c).out.arcsTo n,
      ∃ label, s.labels.relationships.decode? a.relationship = some label := by
    intro c hc n a ha
    have hm : (⟨s.keyOf c, n, a⟩ : PlacedArc) ∈ s.arcs :=
      (mem_arcs_iff hs.placed).2 ⟨c, hc, rfl, ha⟩
    exact h.arcs _ hm
  rintro c hc n a (ha | ha)
  · exact hout c hc n a (ArcIndex.mem_entries_iff.1 ha)
  · have ha := ArcIndex.mem_entries_iff.1 ha
    obtain ⟨m, hm, rfl⟩ := hs.paired.known c hc n (.inr (List.ne_nil_of_mem ha))
    obtain ⟨b, hb, _, _⟩ := hs.paired.out_of_inward hm hc ha
    obtain ⟨hmem, hrelationship, _⟩ := ArcIndex.get?_slot hb
    rw [← hrelationship]
    exact hout m hm _ b hmem

theorem Arises.arcsNamed (h : Arises ok s) : s.store.ArcsNamed :=
  h.lawful.named.arcsNamed h.reach.sound.store

/-- A graph stays legible whatever labels are added. -/
theorem Arises.legibleUnder (h : Arises ok s) (grown : s.store.labels.Grows l) :
    s.store.LegibleUnder l where
  placed := h.reach.sound.store.placed
  own := h.labels
  valid := h.labels.grows grown
  relationships := grown.keeps
  types := grown.types_keeps
  arcsNamed := h.arcsNamed
  typesNamed := h.typesNamed

/-! ## Answers -/

theorem alongside_request {s : Store} (h : s.LegibleUnder l) {r : Request α}
    (hr : r.isReading = true) : Alongside s l G (r.action who) (r.action who) (· = ·) := by
  cases r with
  | contains id => exact alongside_read fun _ => rfl
  | info id => exact alongside_vertexInfo h id
  | arcValue initial probe terminal => exact alongside_arcValue h initial probe terminal
  | adjacent anchor probe neighbor => exact alongside_adjacent h anchor probe neighbor
  | degree anchor probe => exact alongside_degree h anchor probe
  | neighborhood q => exact alongside_neighborhood h q
  | aggregate q => exact alongside_aggregate h q
  | terminals anchor relationship timeout => exact alongside_ofNeighborhood h _ _
  | initials anchor relationship timeout => exact alongside_ofNeighborhood h _ _
  | outarcs anchor timeout => exact alongside_ofNeighborhood h _ _
  | inarcs anchor timeout => exact alongside_ofNeighborhood h _ _
  | snapshot => exact alongside_snapshot h
  | _ => cases hr

/-- Every arc and every vertex type that a graph has stored has its label, and shows it at a
later moment as well. -/
structure Session.KeepsLabels (s s' : Session) : Prop where
  arcs : ∀ c, s.store.Live c → ∀ n a,
    (n, a) ∈ (s.store.data c).out.entries ∨ (n, a) ∈ (s.store.data c).inbound.entries →
      ∃ label, s.store.labels.relationships.decode? a.relationship = some label ∧
        s.store.labels.relationshipLabel a.relationship = label ∧
        s'.store.labels.relationshipLabel a.relationship = label
  types : ∀ c code, (s.store.data c).type = some code →
    ∃ label, s.store.labels.types.decode? code = some label ∧
      (s.store.info c).type = some label ∧ s'.store.labels.types.decode? code = some label
  infos : ∀ c, (s'.store.data c).type = (s.store.data c).type →
    (s'.store.info c).type = (s.store.info c).type

/-- A graph under its label tables as they are at a later moment.  Only these have changed, and
all that is read of the graph is the same. -/
structure Session.ShowsAs (s s' : Session) : Prop where
  same : { s with store := { s.store with labels := s'.store.labels } } = s'
  infos : ∀ c, s'.store.info c = s.store.info c
  arcSnapshots : ∀ c, s.store.Live c → s'.store.arcSnapshots c = s.store.arcSnapshots c
  views : ∀ g, s'.view g = s.view g
  answers : ∀ {α : Type} (who : Caller) (r : Request α), r.isReading = true →
    (s'.ask who r).1 = (s.ask who r).1

namespace Store.LegibleUnder

variable (h : s.store.LegibleUnder l)
include h

/-- A request that only reads is answered as it would be without the labels that were added. -/
theorem ask_eq (hg : s.store.Guarded s.guards) (who : Caller) {r : Request α}
    (hr : r.isReading = true) :
    (({ s with store := { s.store with labels := l } } : Session).ask who r).1 =
      (s.ask who r).1 := by
  have halong : Alongside s.store l s.guards (r.action who) (r.action who) (· = ·) :=
    alongside_request h hr
  obtain ⟨out, out', locks, hrun, hrun', _, hsame⟩ := halong s.store.locks hg.accounts
  have hrun : (r.action who).run s.store = (out, { s.store with locks }) := hrun
  have hrun' : (r.action who).run { s.store with labels := l } =
      (out', { s.store with locks, labels := l }) := hrun'
  simp only [Session.ask, Session.perform, hrun, hrun']
  exact hsame.eq.symm

theorem view_eq (g : Guard) :
    ({ s with store := { s.store with labels := l } } : Session).view g = s.view g :=
  congrArg (fun info => { s.view g with info }) (h.info_eq g.item.slot)

theorem showsAs (hg : s.store.Guarded s.guards) :
    s.ShowsAs { s with store := { s.store with labels := l } } where
  same := rfl
  infos := h.info_eq
  arcSnapshots _ := h.arcSnapshots_eq
  views := h.view_eq
  answers who _ := h.ask_eq hg who

end Store.LegibleUnder

/-- Whatever else becomes of a graph, the labels of what it had stored stay. -/
theorem Store.LegibleUnder.keepsLabels {s' : Session} (h : s.store.LegibleUnder s'.store.labels) :
    s.KeepsLabels s' where
  arcs c hc n a ha := by
    obtain ⟨label, hlabel⟩ := h.arcsNamed c hc n a ha
    have hshown : s.store.labels.relationshipLabel a.relationship = label := by
      rw [Labels.relationshipLabel, hlabel, Option.getD_some]
    exact ⟨label, hlabel, hshown, (h.relationshipLabel_eq ⟨label, hlabel⟩).trans hshown⟩
  types c code hcode := by
    obtain ⟨label, hlabel⟩ := h.typesNamed c code hcode
    have hshown : (s.store.info c).type =
        (s.store.data c).type.bind s.store.labels.types.decode? := rfl
    rw [hcode, Option.bind_some, hlabel] at hshown
    exact ⟨label, hlabel, hshown, h.types code label hlabel⟩
  infos c htype := by
    have hlater : (s'.store.info c).type =
        (s'.store.data c).type.bind s'.store.labels.types.decode? := rfl
    rw [hlater, htype]
    exact h.decode_type c

/-! ## Workspaces -/

/-- A graph of a workspace under label tables. -/
def Graph.under (g : Graph) (l : Labels) : Session :=
  { g.session with store := { g.session.store with labels := l } }

namespace Workspace

/-- What may happen in a workspace: graphs come, they work, and whoever has their tables
accesses these. -/
inductive Event : Type 1 where
  | create (name : String) (config : Config) (ownTables : Bool)
  | createSharing (name other : String) (config : Config) (ownTables : Bool)
  | work (place : Nat) (who : Caller) (op : Operation)
  | closeElsewhere (place : Nat) (names : List GuardName)
  | access (tables : Nat) (a : LabelAccess)

/-- The workspace after an event. -/
def after (w : Workspace) : Event → Workspace
  | .create name config ownTables => w.create name config ownTables
  | .createSharing name other config ownTables => w.createSharing name other config ownTables
  | .work place who op => ((w.onGraph place fun s => ((), op.after who s)).map Prod.snd).getD w
  | .closeElsewhere place names => w.closeElsewhere place names
  | .access tables a =>
    match w.tables[tables]? with
    | some l => { w with tables := w.tables.set! tables (a.after l) }
    | none => w

/-- The workspace after events, one after the other. -/
def afterAll (w : Workspace) (events : List Event) : Workspace := events.foldl after w

/-- The graph at a place, under its label tables. -/
def sessionAt? (w : Workspace) (place : Nat) : Option Session := do
  let g ← w.graphs[place]?
  let labels ← w.tables[g.tables]?
  return g.under labels

/-- Whether an event leaves alone the graph at a place, though not its tables. -/
def Event.Spares (place : Nat) : Event → Prop
  | work p .. => p ≠ place
  | closeElsewhere p _ => p = place
  | _ => True

variable {w w' w'' : Workspace} {e : Event} {g : Graph} {place : Nat}

/-! ### Tables grow -/

/-- All label tables are still there, with labels added at most. -/
def Grows (w w' : Workspace) : Prop :=
  ∀ (k : Nat) (l : Labels), w.tables[k]? = some l → ∃ l', w'.tables[k]? = some l' ∧ l.Grows l'

theorem Grows.refl (w : Workspace) : w.Grows w := fun _ l hl => ⟨l, hl, .refl⟩

theorem Grows.trans (h : w.Grows w') (h' : w'.Grows w'') : w.Grows w'' := by
  intro k l hl
  obtain ⟨l', hl', hgrows⟩ := h k l hl
  obtain ⟨l'', hl'', hgrows'⟩ := h' k l' hl'
  exact ⟨l'', hl'', hgrows.trans hgrows'⟩

/-- The graph has come about on label tables that have become those of its place. -/
structure Serves (w : Workspace) (g : Graph) : Prop where
  arises : Arises (fun _ => True) g.session
  labels : ∃ l, w.tables[g.tables]? = some l ∧ g.session.store.labels.Grows l

theorem Serves.grows (h : w.Serves g) (hw : w.Grows w') : w'.Serves g := by
  obtain ⟨l, hl, hgrows⟩ := h.labels
  obtain ⟨l', hl', hgrows'⟩ := hw _ l hl
  exact ⟨h.arises, l', hl', hgrows.trans hgrows'⟩

/-- All tables have come from empty ones, and all graphs have come about on theirs. -/
structure InOrder (w : Workspace) : Prop where
  tables : ∀ (k : Nat) (l : Labels), w.tables[k]? = some l →
    ∃ relationships types, (Labels.withCapacity relationships types).Grows l
  graphs : ∀ (place : Nat) (g : Graph), w.graphs[place]? = some g → w.Serves g

theorem inOrder_empty (clock : UInt32) : InOrder { clock } :=
  ⟨fun _ _ h => by simp at h, fun _ _ h => by simp at h⟩

/-! ### Event by event -/

theorem InOrder.addGraph (h : w.InOrder) (name : String) (hg : w.Serves g) :
    (w.addGraph name g).InOrder := by
  refine ⟨h.tables, fun place g' hg' => ?_⟩
  have hserves : w.Serves g' := by
    rw [Workspace.addGraph, Array.getElem?_push] at hg'
    split at hg'
    · obtain rfl := Option.some.inj hg'
      exact hg
    · exact h.graphs place g' hg'
  exact hserves.grows (.refl w)

theorem InOrder.push (h : w.InOrder) (relationships types : Nat) :
    InOrder { w with tables := w.tables.push (.withCapacity relationships types) } ∧
      w.Grows { w with tables := w.tables.push (.withCapacity relationships types) } := by
  have hgrows : w.Grows { w with tables := w.tables.push (.withCapacity relationships types) } := by
    intro k l hl
    have hk : k < w.tables.size := (Array.getElem?_eq_some_iff.1 hl).1
    exact ⟨l, (Array.getElem?_push.trans (if_neg (Nat.ne_of_lt hk))).trans hl, .refl⟩
  refine ⟨⟨fun k l hl => ?_, fun place g hg => (h.graphs place g hg).grows hgrows⟩, hgrows⟩
  rw [Array.getElem?_push] at hl
  split at hl
  · obtain rfl := Option.some.inj hl
    exact ⟨relationships, types, .refl⟩
  · exact h.tables k l hl

theorem InOrder.create (h : w.InOrder) (name : String) (config : Config) (ownTables : Bool) :
    (w.create name config ownTables).InOrder ∧ w.Grows (w.create name config ownTables) := by
  obtain ⟨hpushed, hgrows⟩ := h.push config.maxRelationships config.maxVertexTypes
  exact ⟨hpushed.addGraph name ⟨.start config _ _ .refl, _, Array.getElem?_push_size, .refl⟩,
    hgrows⟩

theorem InOrder.createSharing (h : w.InOrder) (name other : String) (config : Config)
    (ownTables : Bool) : (w.createSharing name other config ownTables).InOrder ∧
      w.Grows (w.createSharing name other config ownTables) := by
  unfold Workspace.createSharing
  split
  next tables labels hopen hlabels =>
    rw [openLabels?, hopen, Option.bind_some] at hlabels
    obtain ⟨relationships, types, hgrows⟩ := h.tables tables labels hlabels
    exact ⟨h.addGraph name ⟨.start config relationships types hgrows, labels, hlabels, .refl⟩,
      .refl w⟩
  next => exact h.create name config ownTables

/-- Labels are added to the tables at a place. -/
theorem InOrder.setTables (h : w.InOrder) {k : Nat} {l l' : Labels} (hl : w.tables[k]? = some l)
    (hadded : l.Grows l') : InOrder { w with tables := w.tables.set! k l' } ∧
      w.Grows { w with tables := w.tables.set! k l' } ∧ (w.tables.set! k l')[k]? = some l' := by
  have hk : k < w.tables.size := (Array.getElem?_eq_some_iff.1 hl).1
  have htables : ∀ i, (w.tables.set! k l')[i]? = if k = i then some l' else w.tables[i]? := by
    intro i
    rw [Array.set!_eq_setIfInBounds, Array.getElem?_setIfInBounds]
    simp only [hk, if_true]
  have hgrows : w.Grows { w with tables := w.tables.set! k l' } := by
    intro i l₁ hl₁
    dsimp only
    rw [htables]
    split
    next hsame =>
      subst hsame
      obtain rfl := Option.some.inj (hl.symm.trans hl₁)
      exact ⟨l', rfl, hadded⟩
    next => exact ⟨l₁, hl₁, .refl⟩
  refine ⟨⟨fun i l₁ hl₁ => ?_, fun place g hg => (h.graphs place g hg).grows hgrows⟩, hgrows,
    (htables k).trans (if_pos rfl)⟩
  dsimp only at hl₁
  rw [htables] at hl₁
  split at hl₁
  · obtain rfl := Option.some.inj hl₁
    obtain ⟨relationships, types, hempty⟩ := h.tables k l hl
    exact ⟨relationships, types, hempty.trans hadded⟩
  · exact h.tables i l₁ hl₁

theorem InOrder.setGraph (h : w.InOrder) (hg : w.Serves g) (place : Nat) :
    InOrder { w with graphs := w.graphs.set! place g } := by
  refine ⟨h.tables, fun p g' hg' => ?_⟩
  have hserves : w.Serves g' := by
    dsimp only at hg'
    rw [Array.set!_eq_setIfInBounds, Array.getElem?_setIfInBounds] at hg'
    split at hg'
    · split at hg'
      · obtain rfl := Option.some.inj hg'
        exact hg
      · cases hg'
    · exact h.graphs p g' hg'
  exact hserves.grows (.refl w)

/-- Work is done by a graph that is there, under tables that are there, or not at all. -/
theorem after_work_cases (w : Workspace) (place : Nat) (who : Caller) (op : Operation) :
    w.after (.work place who op) = w ∨
      ∃ g l, w.graphs[place]? = some g ∧ w.tables[g.tables]? = some l ∧
        w.after (.work place who op) = { w with
          graphs := w.graphs.set! place { g with session := op.after who (g.under l) }
          tables := w.tables.set! g.tables (op.after who (g.under l)).store.labels } := by
  cases hg : w.graphs[place]? with
  | none =>
    refine .inl ?_
    simp only [after, onGraph, hg, Option.bind_eq_bind, Option.bind_none, Option.map_none,
      Option.getD_none]
  | some g =>
    cases hl : w.tables[g.tables]? with
    | none =>
      refine .inl ?_
      simp only [after, onGraph, hg, hl, Option.bind_eq_bind, Option.bind_some, Option.bind_none,
        Option.map_none, Option.getD_none]
    | some l =>
      refine .inr ⟨g, l, rfl, hl, ?_⟩
      simp only [after, onGraph, hg, hl, Option.bind_eq_bind, Option.bind_some, Option.pure_def,
        Option.map_some, Option.getD_some]
      rfl

/-- A graph that works adds labels at most. -/
theorem InOrder.work (h : w.InOrder) (place : Nat) (who : Caller) (op : Operation) :
    (w.after (.work place who op)).InOrder ∧ w.Grows (w.after (.work place who op)) := by
  rcases after_work_cases w place who op with hsame | ⟨g, l, hg, hl, hafter⟩
  · rw [hsame]
    exact ⟨h, .refl w⟩
  · have hserves := h.graphs place g hg
    obtain ⟨l₀, hl₀, hold⟩ := hserves.labels
    obtain rfl := Option.some.inj (hl.symm.trans hl₀)
    have harises : Arises (fun _ => True) (g.under l) := hserves.arises.relabel hold
    have hadded : l.Grows (op.after who (g.under l)).store.labels :=
      op.grows_after harises.reach.sound harises.valid who
    obtain ⟨htables, hgrows, hnew⟩ := h.setTables hl hadded
    have hworked : Serves
        { w with tables := w.tables.set! g.tables (op.after who (g.under l)).store.labels }
        { g with session := op.after who (g.under l) } :=
      ⟨harises.step who op trivial, _, hnew, .refl⟩
    rw [hafter]
    exact ⟨htables.setGraph hworked place, hgrows⟩

/-- Closing handles is what an operation does, under whichever tables. -/
theorem Serves.closing (h : w.Serves g) (names : List GuardName) :
    w.Serves { g with session := names.foldl Session.close g.session } := by
  induction names generalizing g with
  | nil => exact h
  | cons name rest ih =>
    refine ih (g := { g with session := g.session.close name }) ⟨?_, ?_⟩
    · exact h.arises.step ⟨name.thread, 0⟩ (.close name.name) trivial
    · have hlabels : (g.session.close name).store.labels = g.session.store.labels := by
        unfold Session.close
        split
        · exact (sameReading_drop slotless_type g.session.store _).labels
        · rfl
      obtain ⟨l, hl, hgrows⟩ := h.labels
      exact ⟨l, hl, hlabels ▸ hgrows⟩

theorem InOrder.closeElsewhere (h : w.InOrder) (place : Nat) (names : List GuardName) :
    (w.closeElsewhere place names).InOrder := by
  refine ⟨h.tables, fun p g hg => ?_⟩
  rw [Workspace.closeElsewhere, Array.getElem?_mapIdx, Option.map_eq_some_iff] at hg
  obtain ⟨g, hg, rfl⟩ := hg
  have hserves : w.Serves (if p = place then g else
      { g with session := names.foldl Session.close g.session }) := by
    split
    · exact h.graphs p g hg
    · exact (h.graphs p g hg).closing names
  exact hserves.grows (.refl w)

theorem InOrder.access (h : w.InOrder) (k : Nat) (a : LabelAccess) :
    (w.after (.access k a)).InOrder ∧ w.Grows (w.after (.access k a)) := by
  rw [after]
  split
  next l hl =>
    obtain ⟨htables, hgrows, _⟩ := h.setTables hl (Labels.grows_after l a)
    exact ⟨htables, hgrows⟩
  next => exact ⟨h, .refl w⟩

/-- One event keeps a workspace in order, and adds labels at most. -/
theorem InOrder.after (h : w.InOrder) (e : Event) : (w.after e).InOrder ∧ w.Grows (w.after e) := by
  cases e with
  | create name config ownTables => exact h.create name config ownTables
  | createSharing name other config ownTables => exact h.createSharing name other config ownTables
  | work place who op => exact h.work place who op
  | closeElsewhere place names => exact ⟨h.closeElsewhere place names, .refl w⟩
  | access k a => exact h.access k a

/-- A graph stays at its place and at the place of its tables; if it is spared it stays as it is. -/
theorem graph_after (hg : w.graphs[place]? = some g) (e : Event) :
    ∃ g', (w.after e).graphs[place]? = some g' ∧ g'.tables = g.tables ∧
      (e.Spares place → g' = g) := by
  have hlt : place < w.graphs.size := (Array.getElem?_eq_some_iff.1 hg).1
  have hpush : ∀ g', (w.graphs.push g')[place]? = some g := fun g' =>
    (Array.getElem?_push.trans (if_neg (Nat.ne_of_lt hlt))).trans hg
  have hkept : ∀ {w' : Workspace}, w'.graphs[place]? = some g →
      ∃ g', w'.graphs[place]? = some g' ∧ g'.tables = g.tables ∧ (e.Spares place → g' = g) :=
    fun hg' => ⟨g, hg', rfl, fun _ => rfl⟩
  cases e with
  | create name config ownTables => exact hkept (hpush _)
  | createSharing name other config ownTables =>
    refine hkept ?_
    simp only [after, Workspace.createSharing]
    split <;> exact hpush _
  | work p who op =>
    rcases after_work_cases w p who op with hsame | ⟨g₀, l, hg₀, _, hafter⟩
    · rw [hsame]
      exact hkept hg
    · by_cases hplace : p = place
      · subst hplace
        obtain rfl := Option.some.inj (hg.symm.trans hg₀)
        refine ⟨{ g with session := op.after who (g.under l) }, ?_, rfl,
          fun hspared => absurd rfl hspared⟩
        rw [hafter]
        exact Array.getElem?_setIfInBounds_self_of_lt hlt
      · refine hkept ?_
        rw [hafter]
        exact (Array.getElem?_setIfInBounds_ne hplace).trans hg
  | closeElsewhere p names =>
    refine ⟨_, (Array.getElem?_mapIdx ..).trans (congrArg _ hg), ?_, fun hspared => ?_⟩
    · dsimp only
      split <;> rfl
    · exact if_pos (Eq.symm hspared)
  | access k a =>
    refine hkept ?_
    rw [after]
    split <;> exact hg

/-! ### Runs -/

theorem InOrder.afterAll (h : w.InOrder) (events : List Event) :
    (w.afterAll events).InOrder ∧ w.Grows (w.afterAll events) := by
  induction events generalizing w with
  | nil => exact ⟨h, .refl w⟩
  | cons e rest ih =>
    obtain ⟨h₁, hgrows₁⟩ := h.after e
    obtain ⟨h₂, hgrows₂⟩ := ih h₁
    exact ⟨h₂, hgrows₁.trans hgrows₂⟩

theorem graph_afterAll (hg : w.graphs[place]? = some g) (events : List Event) :
    ∃ g', (w.afterAll events).graphs[place]? = some g' ∧ g'.tables = g.tables ∧
      ((∀ e ∈ events, e.Spares place) → g' = g) := by
  induction events generalizing w g with
  | nil => exact ⟨g, hg, rfl, fun _ => rfl⟩
  | cons e rest ih =>
    obtain ⟨g₁, hg₁, htables₁, hspared₁⟩ := graph_after hg e
    obtain ⟨g₂, hg₂, htables₂, hspared₂⟩ := ih hg₁
    refine ⟨g₂, hg₂, htables₂.trans htables₁, fun hspared => ?_⟩
    rw [hspared₂ fun e' he' => hspared e' (List.mem_cons_of_mem e he'),
      hspared₁ (hspared e List.mem_cons_self)]

theorem sessionAt?_eq_some_iff {s : Session} : w.sessionAt? place = some s ↔
    ∃ g l, w.graphs[place]? = some g ∧ w.tables[g.tables]? = some l ∧ g.under l = s := by
  simp only [sessionAt?, Option.bind_eq_bind, Option.pure_def, Option.bind_eq_some_iff,
    Option.some.injEq, exists_and_left]

/-! ### What a workspace is asked for -/

/-- A workspace comes from another one by events. -/
def Runs (w w' : Workspace) : Prop := ∃ events, w.afterAll events = w'

theorem Runs.refl (w : Workspace) : w.Runs w := ⟨[], rfl⟩

theorem Runs.trans (h : w.Runs w') (h' : w'.Runs w'') : w.Runs w'' := by
  obtain ⟨events, rfl⟩ := h
  obtain ⟨events', rfl⟩ := h'
  exact ⟨events ++ events', List.foldl_append⟩

theorem runs_after (w : Workspace) (e : Event) : w.Runs (w.after e) := ⟨[e], rfl⟩

section Asking

variable {α : Type} {x : α} {thread : Thread} {name : String}

theorem runs_onGraph {f : Session → α × Session} (who : Caller) (op : Operation)
    (hf : ∀ s, (f s).2 = op.after who s) (h : w.onGraph place f = some (x, w')) : w.Runs w' := by
  have hwork : (w.onGraph place fun s => ((), op.after who s)).map Prod.snd = some w' := by
    simp only [onGraph, Option.bind_eq_bind, Option.pure_def, Option.bind_eq_some_iff,
      Option.some.injEq, Prod.mk.injEq] at h
    obtain ⟨g, hg, l, hl, _, rfl⟩ := h
    simp only [onGraph, hg, hl, Option.bind_eq_bind, Option.bind_some, Option.pure_def,
      Option.map_some, hf]
  have hafter : w.after (.work place who op) = w' := by
    rw [after, hwork, Option.getD_some]
  exact hafter ▸ runs_after w _

theorem runs_ask {r : Request α} {answer : Except Error α}
    (h : w.ask name thread r = some (answer, w')) : w.Runs w' := by
  obtain ⟨place, _, hrun⟩ := Option.bind_eq_some_iff.1 h
  exact runs_onGraph (w.caller thread) (.ask r) (fun _ => rfl) hrun

theorem runs_load (w : Workspace) (name : String) (thread : Thread) (config : Config)
    (text : String) : w.Runs (w.load name thread config text).2 := by
  unfold load
  split
  next => exact .refl w
  next snapshot _ =>
    dsimp only
    split
    next hrun => exact (runs_after w (.create name _ true)).trans (runs_ask hrun)
    next => exact .refl w
    next => exact .refl w

theorem runs_copy {source : String} {answer : Except Error Unit}
    (h : w.copy name source thread = some (answer, w')) : w.Runs w' := by
  obtain ⟨⟨r, w₁⟩, hsnapshot, hrestore⟩ := Option.bind_eq_some_iff.1 h
  have hfirst := runs_ask hsnapshot
  cases r with
  | error e =>
    obtain ⟨_, rfl⟩ := Prod.mk.inj (Option.some.inj hrestore)
    exact hfirst
  | ok snapshot => exact hfirst.trans (runs_ask hrestore)

theorem runs_openVertex {graph id : String} {mode : OpenMode} {answer : Except Error HandleView}
    (h : w.openVertex graph thread name id mode = some (answer, w')) : w.Runs w' := by
  obtain ⟨place, _, hrun⟩ := Option.bind_eq_some_iff.1 h
  obtain ⟨⟨r, w₁⟩, hopened, hclosed⟩ := Option.bind_eq_some_iff.1 hrun
  have hfirst := runs_onGraph (w.caller thread) (.openVertex name id mode) (fun _ => rfl) hopened
  cases r with
  | error e =>
    obtain ⟨_, rfl⟩ := Prod.mk.inj (Option.some.inj hclosed)
    exact hfirst
  | ok view =>
    obtain ⟨_, rfl⟩ := Prod.mk.inj (Option.some.inj hclosed)
    exact hfirst.trans (runs_after w₁ (.closeElsewhere place _))

theorem runs_openVertices {graph : String} {names ids : List String} {mode : OpenMode}
    {answer : Except Error (List HandleView)}
    (h : w.openVertices graph thread names ids mode = some (answer, w')) : w.Runs w' := by
  obtain ⟨place, _, hrun⟩ := Option.bind_eq_some_iff.1 h
  obtain ⟨⟨r, w₁⟩, hopened, hclosed⟩ := Option.bind_eq_some_iff.1 hrun
  have hfirst := runs_onGraph (w.caller thread) (.openVertices names ids mode) (fun _ => rfl)
    hopened
  cases r with
  | error e =>
    obtain ⟨_, rfl⟩ := Prod.mk.inj (Option.some.inj hclosed)
    exact hfirst
  | ok views =>
    obtain ⟨_, rfl⟩ := Prod.mk.inj (Option.some.inj hclosed)
    exact hfirst.trans (runs_after w₁ (.closeElsewhere place _))

theorem runs_onHandle {handle : GuardName} {f : Session → Option (α × Session)} (who : Caller)
    (op : Operation) (hf : ∀ s, ((f s).map Prod.snd).getD s = op.after who s)
    (h : w.onHandle handle f = some (x, w')) : w.Runs w' := by
  obtain ⟨place, _, hrun⟩ := Option.bind_eq_some_iff.1 h
  obtain ⟨⟨answer, w₁⟩, hworked, hanswer⟩ := Option.bind_eq_some_iff.1 hrun
  obtain ⟨_, _, hsame⟩ := Option.bind_eq_some_iff.1 hanswer
  obtain ⟨_, rfl⟩ := Prod.mk.inj (Option.some.inj hsame)
  refine runs_onGraph who op (fun s => ?_) hworked
  rw [← hf s]
  cases f s <;> rfl

theorem runs_askHandle {r : HandleRequest α} {answer : Except Error α}
    (h : w.askHandle thread name r = some (answer, w')) : w.Runs w' :=
  runs_onHandle (w.caller thread) (.askHandle name r) (fun _ => rfl) h

theorem runs_escalate {handle : GuardName} {answer : Except Error LockMode}
    (h : w.escalate handle = some (answer, w')) : w.Runs w' :=
  runs_onHandle ⟨handle.thread, 0⟩ (.escalate handle.name) (fun _ => rfl) h

theorem runs_relax {handle : GuardName} {answer : Except Error (Option HandleView)}
    (h : w.relax handle = some (answer, w')) : w.Runs w' :=
  runs_onHandle ⟨handle.thread, 0⟩ (.relax handle.name) (fun _ => rfl) h

theorem runs_close {handle : GuardName} (h : w.close handle = some ((), w')) : w.Runs w' :=
  runs_onHandle ⟨handle.thread, 0⟩ (.close handle.name) (fun _ => rfl) h

end Asking

/-! ### Labels are stable -/

/-- However many graphs share label tables, in whichever order they work and the tables are
accessed: labels and codes stay partners one to one, the codes in use are the first ones, and
whatever has a partner keeps it.  So the labels that a graph shows of what it has stored never
change, and a graph that is left alone shows and answers all as it did, whatever labels have
been added by others. -/
theorem labels_stable (clock : UInt32) (earlier later : List Event) :
    (∀ (k : Nat) (seen : Labels),
      (({ clock } : Workspace).afterAll earlier).tables[k]? = some seen →
        ∃ now, (({ clock } : Workspace).afterAll (earlier ++ later)).tables[k]? = some now ∧
          now.StableSince seen) ∧
    ∀ (place : Nat) (s : Session),
      (({ clock } : Workspace).afterAll earlier).sessionAt? place = some s →
        ∃ s', (({ clock } : Workspace).afterAll (earlier ++ later)).sessionAt? place = some s' ∧
          s.KeepsLabels s' ∧ ((∀ e ∈ later, e.Spares place) → s.ShowsAs s') := by
  obtain ⟨horder, _⟩ := (inOrder_empty clock).afterAll earlier
  obtain ⟨_, hgrows⟩ := horder.afterAll later
  have hrun : ({ clock } : Workspace).afterAll (earlier ++ later) =
      (({ clock } : Workspace).afterAll earlier).afterAll later := List.foldl_append
  rw [hrun]
  refine ⟨fun k seen hseen => ?_, fun place s hs => ?_⟩
  · obtain ⟨now, hnow, hadded⟩ := hgrows k seen hseen
    obtain ⟨relationships, types, hempty⟩ := horder.tables k seen hseen
    exact ⟨now, hnow, hadded.stableSince ((Labels.valid_tables relationships types).grows hempty)
      ((Labels.sized_withCapacity relationships types).grows hempty)⟩
  · obtain ⟨g, l, hg, hl, rfl⟩ := sessionAt?_eq_some_iff.1 hs
    have hserves := horder.graphs place g hg
    obtain ⟨l₀, hl₀, hold⟩ := hserves.labels
    obtain rfl := Option.some.inj (hl.symm.trans hl₀)
    have harises : Arises (fun _ => True) (g.under l) := hserves.arises.relabel hold
    obtain ⟨now, hnow, hadded⟩ := hgrows g.tables l hl
    have hlegible : (g.under l).store.LegibleUnder now := harises.legibleUnder hadded
    obtain ⟨g', hg', htables, hspared⟩ := graph_afterAll hg later
    refine ⟨g'.under now, sessionAt?_eq_some_iff.2 ⟨g', now, hg', htables ▸ hnow, rfl⟩,
      hlegible.keepsLabels, fun hall => ?_⟩
    rw [hspared hall]
    exact hlegible.showsAs harises.reach.sound.guarded

/-- Two graphs on the same tables, one of which has a vertex with a type, and an arc. -/
def twoGraphs : List Event :=
  [.create "g" {} false, .createSharing "h" "g" {} false,
    .work 0 ⟨⟨"t"⟩, 5⟩ (.ask (.create "a" (some "person"))),
    .work 0 ⟨⟨"t"⟩, 6⟩ (.ask (.connect
      { initial := "a", arc := { relationship := "knows" }, terminals := .one "b" }))]

/-- The other graph adds a type, and a relationship is added from outside. -/
def otherLabels : List Event :=
  [.work 1 ⟨⟨"u"⟩, 7⟩ (.ask (.create "c" (some "city"))),
    .access 0 (.encode .relationship "likes")]

/-- The first graph shows its labels as before, though there are more now. -/
theorem labels_stable_twoGraphs :
    (∃ seen now, (({ clock := 0 } : Workspace).afterAll twoGraphs).tables[0]? = some seen ∧
      (({ clock := 0 } : Workspace).afterAll (twoGraphs ++ otherLabels)).tables[0]? = some now ∧
        now.StableSince seen ∧ (seen.relationships.size, seen.types.size) = (1, 1) ∧
          (now.relationships.size, now.types.size) = (2, 2)) ∧
    ∃ s s', (({ clock := 0 } : Workspace).afterAll twoGraphs).sessionAt? 0 = some s ∧
      (({ clock := 0 } : Workspace).afterAll (twoGraphs ++ otherLabels)).sessionAt? 0 = some s' ∧
        s.KeepsLabels s' ∧ s.ShowsAs s' ∧ (s.store.info 0).type = some "person" ∧
          (s.store.arcSnapshots 0).map (·.relationship) = ["knows"] := by
  obtain ⟨hbefore, hafter, htype⟩ :
      (({ clock := 0 } : Workspace).afterAll twoGraphs).tables[0]?.map
          (fun l => (l.relationships.size, l.types.size)) = some (1, 1) ∧
        (({ clock := 0 } : Workspace).afterAll (twoGraphs ++ otherLabels)).tables[0]?.map
          (fun l => (l.relationships.size, l.types.size)) = some (2, 2) ∧
        ((({ clock := 0 } : Workspace).afterAll twoGraphs).sessionAt? 0).bind
          (fun s => (s.store.info 0).type.map fun type =>
            (type, (s.store.arcSnapshots 0).map (·.relationship))) =
          some ("person", ["knows"]) := by
    set_option maxRecDepth 10000 in
    cbv
  obtain ⟨seen, hseen, hsizes⟩ := Option.map_eq_some_iff.1 hbefore
  obtain ⟨s, hs, hshown⟩ := Option.bind_eq_some_iff.1 htype
  obtain ⟨type, htype, hshown⟩ := Option.map_eq_some_iff.1 hshown
  obtain ⟨rfl, hrelationships⟩ := Prod.mk.inj hshown
  obtain ⟨hstable, hshows⟩ := labels_stable 0 twoGraphs otherLabels
  obtain ⟨now, hnow, hsince⟩ := hstable 0 seen hseen
  obtain ⟨s', hs', hkept, hsame⟩ := hshows 0 s hs
  have hspared : ∀ e ∈ otherLabels, e.Spares 0 := by
    simp [otherLabels, Event.Spares]
  rw [hnow, Option.map_some, Option.some.injEq] at hafter
  exact ⟨⟨seen, now, hseen, hnow, hsince, hsizes, hafter⟩, s, s', hs, hs', hkept,
    hsame hspared, htype, hrelationships⟩

end Workspace

end Arcbase
