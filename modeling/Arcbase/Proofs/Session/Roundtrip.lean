import Arcbase.Proofs.Session.Restoring
import Arcbase.Proofs.Snapshot.Refilling
import Mathlib
set_option autoImplicit false

/-!
# Snapshots that are restored

A graph that is restored from the snapshot of another one has the same snapshot again, and
whatever is read of it is the same as in the other one (`roundtrip`).
-/

namespace Arcbase

open Arcbase.Action Store

namespace Store

/-! ## The same answers -/

section Answers

variable {s r : Store} {α : Type} (h : Alike s r)
include h

/-- What follows after a vertex has been looked up. -/
theorem Alike.found_bind_eq {id : String} {f f' : CellId → Except Error α}
    (hf : ∀ c c', s.lookup id = some c → r.lookup id = some c' → f c = f' c') :
    s.found id >>= f = r.found id >>= f' := by
  cases hc : s.lookup id with
  | none =>
    rw [found, found, hc, h.lookup_eq_none hc]
    rfl
  | some c =>
    obtain ⟨c', hc', _⟩ := h.exists_lookup hc
    rw [found, found, hc, hc']
    exact hf c c' hc hc'

omit h in
/-- What follows after the label of a probe has been looked up. -/
theorem filterOf_bind_eq {p : Probe} {f f' : ArcFilter → Except Error α}
    (hf : ∀ x x', s.filterOf p = .ok x → r.filterOf p = .ok x' → f x = f' x') :
    s.filterOf p >>= f = r.filterOf p >>= f' := by
  rcases ofProbe_cases s.labels r.labels p with ⟨e, he, he'⟩ | ⟨x, x', hx, hx'⟩
  · rw [filterOf, filterOf, he, he']
    rfl
  · rw [filterOf, filterOf, hx, hx']
    exact hf x x' hx hx'

variable (hs : s.Legible) (hr : r.Legible)
include hs hr

theorem Alike.infoOf_eq (id : String) : s.infoOf id = r.infoOf id :=
  h.found_bind_eq fun _ _ hc hc' => congrArg Except.ok (h.info_eq hs hr hc hc')

theorem Alike.adjacentOf_eq (anchor : String) (probe : Probe) (neighbor : Option String) :
    s.adjacentOf anchor probe neighbor = r.adjacentOf anchor probe neighbor := by
  refine filterOf_bind_eq fun f f' hf hf' => h.found_bind_eq fun c c' hc hc' => ?_
  have hmatches := h.hasMatchingArc_eq hs hr hc hc' hf hf' probe.direction
  cases neighbor with
  | none => exact congrArg Except.ok (hmatches none)
  | some id =>
    cases hn : s.lookup id with
    | none => simp only [hn, h.lookup_eq_none hn]
    | some n =>
      obtain ⟨n', hn', _⟩ := h.exists_lookup hn
      simp only [hn, hn', Alike.keyOf_eq hs hr hn hn']
      exact congrArg Except.ok (hmatches _)

theorem Alike.degreeOf_eq (anchor : String) (probe : Option Probe) :
    s.degreeOf anchor probe = r.degreeOf anchor probe := by
  refine h.found_bind_eq fun c c' hc hc' => ?_
  cases probe with
  | none =>
    have hin := h.indegree_eq hs hr hc hc'
    have hout := h.outdegree_eq hs hr hc hc'
    exact congrArg Except.ok (congrArg₂ (· + ·) hin hout)
  | some probe =>
    exact filterOf_bind_eq fun f f' hf hf' =>
      congrArg Except.ok (h.length_matchingArcs_eq hs hr hc hc' hf hf' _)

theorem Alike.valueOf_eq (initial : String) {probe : Probe} {label : String} {kind : ArcKind}
    (hlabel : probe.relationship = some label) (hkind : probe.kind = some kind)
    (hdirection : probe.direction ≠ .any) (terminal : String) :
    s.valueOf initial probe terminal = r.valueOf initial probe terminal := by
  refine filterOf_bind_eq fun f f' hf hf' => h.found_bind_eq fun c c' hc hc' => ?_
  cases ht : s.lookup terminal with
  | none => simp only [h.lookup_eq_none ht]
  | some t =>
    obtain ⟨t', ht', _⟩ := h.exists_lookup ht
    simp only [ht', Alike.keyOf_eq hs hr ht ht']
    exact congrArg Except.ok (h.value_eq hs hr hc hc' hf hf' hlabel hkind hdirection _)

end Answers

end Store

/-! ## Sessions -/

variable {ok : Operation → Prop} {s t : Session} {who : Caller}

theorem Arises.sized (h : Arises ok s) : s.store.labels.Sized := by
  induction h with
  | start _ relationships types grown =>
    exact (Labels.sized_withCapacity relationships types).grows grown
  | step before who op _ ih =>
    exact ih.grows (op.grows_after before.reach.sound before.valid who)
  | relabel _ grown ih => exact ih.grows grown

/-- What is told of the outcome of a request is so. -/
theorem Session.told_of_answers {agree : Agreement} (hs : s.Sound agree) {α : Type}
    (r : Request α) {Q : Except Error α → Prop}
    (h : Answers s.store s.guards (r.action who) Q) : Q (s.ask who r).1 := by
  obtain ⟨answer, locks, hrun, _, _, hx⟩ := h s.store.locks (.refl _) hs.guarded.accounts
  have hask : (s.ask who r).1 = ((r.action who).run s.store).1 := rfl
  rw [hask, show (r.action who).run s.store = _ from hrun]
  exact hx

theorem Session.ask_of_answers {agree : Agreement} (hs : s.Sound agree) {α : Type}
    (r : Request α) {x : Except Error α}
    (h : Answers s.store s.guards (r.action who) (· = x)) : (s.ask who r).1 = x :=
  told_of_answers hs r h

/-- A restored graph keeps its configuration, and its vertices are all new. -/
theorem fresh_restore {snapshot : Snapshot} {s s' : Store}
    (hrun : (restore snapshot).run s = (.ok (), s')) (hl : s.labels.Valid) (hp : s'.Placed) :
    s'.config = s.config ∧ ∀ c, s'.Live c → s.cells.size ≤ c := by
  rcases fill_restore (kept_staged snapshot hl) hrun with
    ⟨⟨_, he⟩, _⟩ | ⟨_, hempty, g, l, _, _, rfl⟩
  · cases he
  · exact ⟨g.config_commit _, fun c hc =>
      Staging.size_le_of_lookupKey (s := { s with labels := l }) hempty (hp.lookup_key hc)⟩

/-- Every thread can read every vertex of a graph that has just been restored. -/
theorem openTo_of_fresh {agree : Agreement} (hs : s.Sound agree) (ht : t.Sound agree)
    (hguards : s.guards = t.guards) (hfresh : ∀ c, s.store.Live c → t.store.cells.size ≤ c)
    (me : Thread) : s.store.OpenTo s.guards me := by
  intro c hc
  have hnone : Guard.onSlot c s.guards = [] := by
    refine List.filter_eq_nil_iff.2 fun g hg hslot => ?_
    have hlt := (ht.guarded.item g (hguards ▸ hg)).1
    rw [of_decide_eq_true hslot] at hlt
    exact Nat.not_lt_of_le (hfresh c hc) hlt
  rw [CanRead, hnone]
  exact ⟨fun g hg => absurd hg List.not_mem_nil, hs.guarded.accounts.limit_pos⟩

/-- The snapshot of a graph is restored into an empty one that has room for it, which is open
to everyone then. -/
theorem Arises.refilled {ok : Operation → Prop} (hs : Arises ok s) (ht : Arises (fun _ => True) t)
    (hempty : t.store.order = 0) (hwritable : t.store.locks.readonly = false)
    (hlimit : s.store.config.maxIdentifierLength ≤ t.store.config.maxIdentifierLength)
    (hsuits : t.store.labels.Suits s.store.labels) (into : Caller) :
    ∃ r, t.ask into (.restore s.store.toSnapshot) = (.ok (), r) ∧ Arises (fun _ => True) r ∧
      r.store.config = t.store.config ∧ Filled s.store.toSnapshot r.store ∧
      r.store.Sound .slots ∧ ∀ me, r.store.OpenTo r.guards me := by
  have hrestored : (t.ask into (.restore s.store.toSnapshot)).1 = .ok () :=
    restore_isOk (fits_toSnapshot hs.reach.sound.store hs.lawful hs.labels hlimit) hs.labels
      hs.sized ht.labels ⟨ht.sized, hsuits⟩ hempty hwritable
  rcases ht.restored hempty into s.store.toSnapshot with ⟨e, herror, _⟩ | ⟨_, hslots, hfilled, _⟩
  · rw [hrestored] at herror
    cases herror
  have hr : Arises (fun _ => True) (t.ask into (.restore s.store.toSnapshot)).2 :=
    ht.step into (.ask (.restore s.store.toSnapshot)) trivial
  obtain ⟨hsame, hfresh⟩ := fresh_restore (Prod.ext hrestored rfl) ht.labels hslots.placed
  exact ⟨_, Prod.ext hrestored rfl, hr, hsame, hfilled, hslots,
    openTo_of_fresh hr.reach.sound ht.reach.sound rfl hfresh⟩

/-- Every reader of a session gets the snapshot that is told, and the answers that a caller
gets of another session. -/
structure Reproduces (r s : Session) (who : Caller) (snapshot : Snapshot) : Prop where
  snapshot : ∀ reader, (r.ask reader .snapshot).1 = .ok snapshot
  order : r.store.order = s.store.order
  size : r.store.size = s.store.size
  info : ∀ reader id, (r.ask reader (.info id)).1 = (s.ask who (.info id)).1
  adjacent : ∀ reader anchor probe neighbor,
    (r.ask reader (.adjacent anchor probe neighbor)).1 =
      (s.ask who (.adjacent anchor probe neighbor)).1
  degree : ∀ reader anchor probe,
    (r.ask reader (.degree anchor probe)).1 = (s.ask who (.degree anchor probe)).1
  value : ∀ reader initial (probe : Probe) terminal, probe.relationship ≠ none →
    probe.kind ≠ none → probe.direction ≠ .any →
      (r.ask reader (.arcValue initial probe terminal)).1 =
        (s.ask who (.arcValue initial probe terminal)).1

theorem Store.Alike.reproduces {agree agree' : Agreement} {r : Session}
    (h : Alike s.store r.store) (hs : s.Sound agree) (hr : r.Sound agree')
    (hls : s.store.Legible) (hlr : r.store.Legible)
    (hopen : s.store.OpenTo s.guards who.thread) (hfree : ∀ me, r.store.OpenTo r.guards me)
    (hname : s.store.config.name = r.store.config.name) :
    Reproduces r s who s.store.toSnapshot := by
  have hp := hs.store.placed
  have hp' := hr.store.placed
  refine ⟨fun reader => ?_, (h.order_eq hp hp').symm, (h.size_eq hls hlr).symm,
    fun reader id => ?_, fun reader anchor probe neighbor => ?_, fun reader anchor probe => ?_,
    fun reader initial probe terminal hlabel hkind hdirection => ?_⟩
  · rw [h.toSnapshot_eq hls.sound hlr.sound hls.named hlr.named hname]
    exact Session.ask_of_answers hr .snapshot (answers_toSnapshot (hfree _) hp')
  · rw [Session.ask_of_answers hs (.info id) (answers_infoOf hopen hp id),
      Session.ask_of_answers hr (.info id) (answers_infoOf (hfree _) hp' id), h.infoOf_eq hls hlr]
  · rw [Session.ask_of_answers hs (.adjacent anchor probe neighbor)
        (answers_adjacentOf hopen hp anchor probe neighbor),
      Session.ask_of_answers hr (.adjacent anchor probe neighbor)
        (answers_adjacentOf (hfree _) hp' anchor probe neighbor), h.adjacentOf_eq hls hlr]
  · rw [Session.ask_of_answers hs (.degree anchor probe)
        (answers_degreeOf hopen hp anchor probe),
      Session.ask_of_answers hr (.degree anchor probe)
        (answers_degreeOf (hfree _) hp' anchor probe), h.degreeOf_eq hls hlr]
  · obtain ⟨label, hlabel⟩ := Option.ne_none_iff_exists'.1 hlabel
    obtain ⟨kind, hkind⟩ := Option.ne_none_iff_exists'.1 hkind
    rw [Session.ask_of_answers hs (.arcValue initial probe terminal)
        (answers_valueOf hopen hp initial probe terminal),
      Session.ask_of_answers hr (.arcValue initial probe terminal)
        (answers_valueOf (hfree _) hp' initial probe terminal),
      h.valueOf_eq hls hlr initial hlabel hkind hdirection]

/-- The snapshot of a graph in use, taken by a thread that can read every vertex, is restored
into an empty graph of the same configuration, whose label tables are as large; what has been
restored reads as the graph does. -/
theorem roundtrip (hs : Arises Operation.Live s) (hopen : s.store.OpenTo s.guards who.thread)
    (ht : Arises (fun _ => True) t) (hempty : t.store.order = 0)
    (hwritable : t.store.locks.readonly = false) (hconfig : t.store.config = s.store.config)
    (hsuits : t.store.labels.Suits s.store.labels) (into : Caller) :
    ∃ snapshot, (s.ask who .snapshot).1 = .ok snapshot ∧
      (t.ask into (.restore snapshot)).1 = .ok () ∧
      Reproduces (t.ask into (.restore snapshot)).2 s who snapshot := by
  have hsound := hs.reach.sound_live
  have hls : s.store.Legible := ⟨hsound.store, hs.lawful.named⟩
  have hlimit := Nat.le_of_eq (congrArg Config.maxIdentifierLength hconfig.symm)
  obtain ⟨r, hrestored, hr, hsame, hfilled, hslots, hfree⟩ :=
    hs.refilled ht hempty hwritable hlimit hsuits into
  have hsettled := (distinct_toSnapshot hls.sound hls.named).settled
  have hlr : r.store.Legible := ⟨hfilled.sound_of_settled hslots hsettled, hr.lawful.named⟩
  refine ⟨s.store.toSnapshot, Session.ask_of_answers hsound .snapshot
    (answers_toSnapshot hopen hsound.store.placed), congrArg Prod.fst hrestored, ?_⟩
  rw [hrestored]
  exact (hfilled.alike hls.sound hls.named hslots hlr.named).reproduces hsound hr.reach.sound hls
    hlr hopen hfree (congrArg Config.name (hsame.trans hconfig)).symm

/-- A loop and a forward-only arc, of which the latter came first. -/
def looped : Session :=
  (Operation.ask (.connect
    { initial := "a", arc := { relationship := "r" }, terminals := .one "a" })).after ⟨⟨"m"⟩, 6⟩
    ((Operation.ask (.connect
      { initial := "a", arc := { relationship := "s", forwardOnly := true },
        terminals := .one "b" })).after ⟨⟨"m"⟩, 5⟩ (.new {} .new))

theorem arises_looped : Arises Operation.Live looped := by
  have hempty : Arises Operation.Live (.new {} .new) := .start {} 65535 65535 .refl
  have hsealed := hempty.step ⟨⟨"m"⟩, 5⟩ (.ask (.connect
    { initial := "a", arc := { relationship := "s", forwardOnly := true },
      terminals := .one "b" })) rfl
  exact hsealed.step ⟨⟨"m"⟩, 6⟩ (.ask (.connect
    { initial := "a", arc := { relationship := "r" }, terminals := .one "a" })) rfl

/-- Restored on other label tables, it reads as before. -/
theorem roundtrip_looped : ∃ snapshot, (looped.ask ⟨⟨"m"⟩, 7⟩ .snapshot).1 = .ok snapshot ∧
    (Session.ask (.new {} .new) ⟨⟨"u"⟩, 8⟩ (.restore snapshot)).1 = .ok () ∧
      Reproduces (Session.ask (.new {} .new) ⟨⟨"u"⟩, 8⟩ (.restore snapshot)).2 looped ⟨⟨"m"⟩, 7⟩
        snapshot := by
  obtain ⟨hidle, hconfig, hcapacity⟩ : looped.guards = [] ∧ looped.store.config = {} ∧
      looped.store.labels.relationships.capacity = 65535 ∧
      looped.store.labels.types.capacity = 65535 := by
    set_option maxRecDepth 10000 in
    cbv
  have hopen : looped.store.OpenTo looped.guards ⟨"m"⟩ := by
    rw [hidle]
    exact fun c _ => ⟨fun g hg => absurd hg List.not_mem_nil,
      arises_looped.reach.sound.guarded.accounts.limit_pos⟩
  exact roundtrip arises_looped hopen arises_new rfl rfl hconfig.symm
    (Labels.suits_withCapacity (Nat.le_of_eq hcapacity.1) (Nat.le_of_eq hcapacity.2)) ⟨⟨"u"⟩, 8⟩

end Arcbase
