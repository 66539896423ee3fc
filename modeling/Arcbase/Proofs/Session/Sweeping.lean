import Arcbase.Proofs.Action.Sweeping
import Arcbase.Proofs.Session.Reach
import Mathlib
set_option autoImplicit false

/-!
# What an expiration pass takes away

A pass goes by its schedule.  It deletes the vertices that are due there and the arcs along
the relationships that are due, and nothing else but virtual vertices that are left without
arcs (`sweptBy_runExpiration`).  The schedule may be ahead of the graph: an entry outlives
the vertex or the arc for which it was made, and then it is good for whatever is made in
their place.
-/

namespace Arcbase

open Arcbase.Action Store

variable {agree : Agreement} {s s' : Store}

namespace Store

/-- A graph after some of it has been taken away: the vertices in `V` with their arcs, the
arcs in `A`, and virtual vertices that are left without arcs. -/
structure SweptBy (V : String → Prop) (A : PlacedArc → Prop) (s s' : Store) : Prop where
  /-- no vertex has come -/
  vertices : ∀ id c, s'.lookup id = some c → s.lookup id = some c
  deleted : ∀ id c, s.lookup id = some c → s'.lookup id = none →
    V id ∨ (s.data c).manifestation = .virtual ∧ ∀ p ∈ s'.arcs, ¬ p.touches (.of id)
  reduced : ∀ id c, s'.lookup id = some c →
    (s'.data c).manifestation ≠ (s.data c).manifestation → V id
  /-- no arc has come -/
  arcs : ∀ p ∈ s'.arcs, p ∈ s.arcs
  removed : ∀ p ∈ s.arcs, p ∉ s'.arcs →
    A p ∨ ∃ id c, V id ∧ s.lookup id = some c ∧ p.touches (.of id)

/-- A vertex with a time of expiration that has come. -/
def VertexExpired (time : UInt32) (s : Store) (id : String) : Prop :=
  ∃ c t, s.lookup id = some c ∧ (s.data c).expires = some t ∧ t ≤ time

/-- An arc of a relationship that has a time of expiration, which has come. -/
def ArcExpired (time : UInt32) (s : Store) (p : PlacedArc) : Prop :=
  ∃ q ∈ s.arcs, q.initial = p.initial ∧ q.terminal = p.terminal ∧
    q.arc.relationship = p.arc.relationship ∧ q.arc.kind = .timeExpires ∧
    ∃ t, q.arc.value = .unsigned t ∧ t ≤ time

/-- A vertex whose deletion is due. -/
def VertexDue (time : UInt32) (s : Store) (id : String) : Prop :=
  ∃ t, s.schedule.time? (.vertex id) = some t ∧ t ≤ time

/-- An arc of a relationship whose removal is due. -/
def ArcDue (time : UInt32) (s : Store) (p : PlacedArc) : Prop :=
  ∃ initial relationship terminal t,
    s.schedule.time? (.arc initial relationship terminal) = some t ∧ t ≤ time ∧
    p.initial = .of initial ∧ p.terminal = .of terminal ∧ s.Names relationship p.arc.relationship

section SweptBy

variable {V V' : String → Prop} {A A' : PlacedArc → Prop}

theorem SweptBy.refl (s : Store) : SweptBy V A s s :=
  ⟨fun _ _ h => h, fun _ _ h h' => by simp [h] at h', fun _ _ _ h => absurd rfl h, fun _ h => h,
    fun _ h h' => absurd h h'⟩

theorem SweptBy.mono (h : SweptBy V A s s') (hV : ∀ id c, s.lookup id = some c → V id → V' id)
    (hA : ∀ p ∈ s.arcs, A p → A' p) : SweptBy V' A' s s' := by
  refine ⟨h.vertices, fun id c hc hgone => ?_, fun id c hc hne => ?_, h.arcs, fun p hp hgone => ?_⟩
  · exact (h.deleted id c hc hgone).imp_left (hV id c hc)
  · exact hV id c (h.vertices id c hc) (h.reduced id c hc hne)
  · refine (h.removed p hp hgone).imp (hA p hp) ?_
    rintro ⟨id, c, hVid, hc, ht⟩
    exact ⟨id, c, hV id c hc hVid, hc, ht⟩

/-- What is told of cells and places, told of vertices and arcs. -/
theorem Swept.sweptBy {B : Place → Prop} (h : Swept (fun c => V (s.cell c).id) B s s')
    (hs : s.Sound agree) (hs' : s'.Sound agree)
    (hA : ∀ i, s.Live i → ∀ p : PlacedArc, s.keyOf i = p.initial →
      B ⟨i, p.terminal, p.arc.relationship, p.arc.kind⟩ → A p) : SweptBy V A s s' := by
  have hvertex : ∀ id c, s'.lookup id = some c → s.Live c ∧ (s.cell c).id = id := by
    intro id c hc
    obtain ⟨hlive', hid⟩ := hs'.placed.of_lookup hc
    have hlive := h.live c hlive'
    exact ⟨hlive, (h.cells.id c hlive.1).symm.trans hid⟩
  refine ⟨fun id c hc => ?_, fun id c hc hgone => ?_, fun id c hc hne => ?_,
    fun p => h.arcs_subset hs hs', fun p hp hgone => ?_⟩
  · obtain ⟨hlive, rfl⟩ := hvertex id c hc
    exact hs.placed.lookup_of_live hlive
  · obtain ⟨hlive, hid⟩ := hs.placed.of_lookup hc
    have hdead : ¬ s'.Live c := by
      intro hlive'
      have hfound := hs'.placed.lookup_of_live hlive'
      rw [h.cells.id c hlive.1, hid, hgone] at hfound
      cases hfound
    rcases (h.gone c hlive).resolve_left hdead with hV | hvirtual
    · exact .inl (hid ▸ hV)
    · refine .inr ⟨hvirtual, fun p hp ht => ?_⟩
      obtain ⟨m, hm, hk⟩ := live_of_mem_arcs hs' hp ht
      have hkeys : s.keyOf m = s.keyOf c := by
        rw [hs.placed.keyOf_of_lookup hc, ← hk]
        exact (h.cells.key m (h.live m hm).1).symm
      exact hdead (hs.placed.eq_of_key (h.live m hm) hlive hkeys ▸ hm)
  · obtain ⟨hlive, rfl⟩ := hvertex id c hc
    refine (h.kept c (hs'.placed.of_lookup hc).1).resolve_right fun hkept => hne hkept.1
  · obtain ⟨i, hi, hk, hB | ⟨c, hc, hV, hat⟩⟩ := h.spent hs hs' hp hgone
    · exact .inl (hA i hi p hk hB)
    · refine .inr ⟨_, c, hV, hs.placed.lookup_of_live hc, ?_⟩
      have hkey : s.keyOf c = .of (s.cell c).id := hs.placed.keyed c hc.1
      rcases hat with rfl | htoward
      · exact .inl (hk.symm.trans hkey)
      · exact .inr (htoward.symm.trans hkey)

end SweptBy

end Store

/-- A pass takes away what is due. -/
theorem sweptBy_expire {G : List Guard} {who : Caller} {time : UInt32}
    {r : Except Error ExpirationReport} (hs : s.Sound agree) (hg : s.Guarded G)
    (hrun : (runExpiration who time).run s = (r, s')) :
    SweptBy (s.VertexDue time) (s.ArcDue time) s s' := by
  have hs' : s'.Sound agree :=
    Steps.sound (orderly_runExpiration (W := fun _ => True) (fun _ _ => trivial) time
      s r s' hs hg trivial hrun).1 hs
  let dueAt : Place → Prop := fun p => ∃ relationship terminal t,
    s.schedule.time? (.arc (s.cell p.cell).id relationship terminal) = some t ∧ t ≤ time ∧
      p.toward = .of terminal ∧ s.Names relationship p.relationship
  have hswept : Swept (fun c => s.VertexDue time (s.cell c).id) dueAt s s' :=
    swept_runExpiration hs hg hrun (fun c _ t htime hle => ⟨t, htime, hle⟩)
      fun p _ relationship terminal t htime hle htoward hnames =>
        ⟨relationship, terminal, t, htime, hle, htoward, hnames⟩
  refine hswept.sweptBy hs hs' ?_
  rintro i hi p hk ⟨relationship, terminal, t, htime, hle, htoward, hnames⟩
  have hinitial : p.initial = .of (s.cell i).id := hk.symm.trans (hs.placed.keyed i hi.1)
  exact ⟨_, relationship, terminal, t, htime, hle, hinitial, htoward, hnames⟩

variable {session : Session}

/-- A pass takes away what its schedule tells to be due.  If that is what is stored to have
expired, it takes away only what has expired. -/
theorem sweptBy_runExpiration {ok : Operation → Prop} (h : Reach ok session) (who : Caller)
    (time : UInt32) :
    SweptBy (session.store.VertexDue time) (session.store.ArcDue time) session.store
        (session.ask who (.runExpiration time)).2.store ∧
      ((∀ id c, session.store.lookup id = some c → session.store.VertexDue time id →
          session.store.VertexExpired time id) →
        (∀ p ∈ session.store.arcs, session.store.ArcDue time p →
          session.store.ArcExpired time p) →
        SweptBy (session.store.VertexExpired time) (session.store.ArcExpired time) session.store
          (session.ask who (.runExpiration time)).2.store) := by
  have hsound := h.sound
  have hswept : SweptBy (session.store.VertexDue time) (session.store.ArcDue time) session.store
      (session.ask who (.runExpiration time)).2.store :=
    sweptBy_expire hsound.store hsound.guarded rfl
  exact ⟨hswept, fun hV hA => hswept.mono hV hA⟩

/-- A vertex that was to expire, and has been deleted and created again. -/
def recreated : Session :=
  (Operation.ask (.create "A" none)).after ⟨⟨"m"⟩, 5⟩
    ((Operation.ask (.delete "A")).after ⟨⟨"m"⟩, 5⟩
      ((Operation.ask (.markExpiring "A" 100)).after ⟨⟨"m"⟩, 5⟩
        ((Operation.ask (.create "A" none)).after ⟨⟨"m"⟩, 5⟩ (.new {} .new))))

theorem reach_recreated : Reach (fun _ => True) recreated := by
  have hempty : Reach (fun _ => True) (.new {} .new) := .start {} .new
  have hcreated := hempty.step ⟨⟨"m"⟩, 5⟩ (.ask (.create "A" none)) trivial
  have hmarked := hcreated.step ⟨⟨"m"⟩, 5⟩ (.ask (.markExpiring "A" 100)) trivial
  have hdeleted := hmarked.step ⟨⟨"m"⟩, 5⟩ (.ask (.delete "A")) trivial
  exact hdeleted.step ⟨⟨"m"⟩, 5⟩ (.ask (.create "A" none)) trivial

theorem due_recreated : recreated.store.schedule.time? (.vertex "A") = some 100 := by
  set_option maxRecDepth 10000 in
  cbv

/-- The entry of the first vertex is still there. -/
theorem sweptBy_runExpiration_recreated :
    recreated.store.VertexDue 100 "A" ∧
      SweptBy (recreated.store.VertexDue 100) (recreated.store.ArcDue 100) recreated.store
        (recreated.ask ⟨⟨"m"⟩, 5⟩ (.runExpiration 100)).2.store :=
  ⟨⟨100, due_recreated, by decide⟩, (sweptBy_runExpiration reach_recreated ⟨⟨"m"⟩, 5⟩ 100).1⟩

/-- A pass may delete a vertex that is not to expire. -/
theorem not_sweptBy_expired_recreated :
    ¬ ∀ session : Session, Reach (fun _ => True) session → ∀ (who : Caller) (time : UInt32),
      SweptBy (session.store.VertexExpired time) (session.store.ArcExpired time) session.store
        (session.ask who (.runExpiration time)).2.store := by
  intro hall
  have hswept := hall recreated reach_recreated ⟨⟨"m"⟩, 5⟩ 100
  obtain ⟨hbefore, hafter, hdata⟩ : recreated.store.lookup "A" = some 1 ∧
      (recreated.ask ⟨⟨"m"⟩, 5⟩ (.runExpiration 100)).2.store.lookup "A" = none ∧
      (recreated.store.data 1).expires = none ∧
      (recreated.store.data 1).manifestation = .real := by
    set_option maxRecDepth 10000 in
    cbv
  rcases hswept.deleted "A" 1 hbefore hafter with ⟨c, t, hc, hexpires, _⟩ | ⟨hvirtual, _⟩
  · rw [hbefore] at hc
    cases hc
    rw [hdata.1] at hexpires
    cases hexpires
  · rw [hdata.2] at hvirtual
    cases hvirtual

end Arcbase
