import Arcbase.Proofs.Action.Removing
import Arcbase.Proofs.Store.Aim
set_option autoImplicit false

/-!
# Partial removals are exact

Which arcs a disconnect takes off can be told from the graph and the locks before it:
those that it is after, except the ones at whose other end is a vertex that the caller
cannot hold (`Store.taken`).  It counts both kinds, and it takes out the virtual vertices
that are left without arcs and that nobody holds (`disconnected_of_severRun`).
-/

namespace Arcbase

open Arcbase.Action

namespace Store

variable {agree : Agreement} {s s' : Store} {G : List Guard} {g : Guard} {who : Caller}
  {c : CellId} {aim : Aim}

/-- The arcs that a removal is after. -/
def caught (s : Store) (aim : Aim) : List PlacedArc := s.arcs.filter aim.hits

/-- Those of them that it cannot take off: the thread cannot hold their other end. -/
def stuck (s : Store) (me : Thread) (c : CellId) (aim : Aim) : List PlacedArc :=
  (s.caught aim).filter fun p => s.obstructed me c (aim.otherEnd p)

/-- Those of them that it takes off. -/
def taken (s : Store) (me : Thread) (c : CellId) (aim : Aim) : List PlacedArc :=
  (s.caught aim).filter fun p => !s.obstructed me c (aim.otherEnd p)

/-- A removal has left a vertex for which there is no more use: one that it was about,
virtual, without arcs, and not held by the thread. -/
structure Orphaned (me : Thread) (G : List Guard) (c : CellId) (aim : Aim) (s s' : Store)
    (v : CellId) : Prop where
  touched : v = c ∨ ∃ p ∈ s.taken me c aim, p.touches (s.keyOf v)
  virtual : (s.data v).manifestation = .virtual
  bare : ∀ p ∈ s'.arcs, ¬ p.touches (s.keyOf v)
  unheld : ∀ g ∈ G, g.item.slot = v → g.thread ≠ me

/-- What a removal around a vertex has done to a graph, and what it says of it. -/
structure Disconnected (me : Thread) (G : List Guard) (c : CellId) (aim : Aim) (s s' : Store)
    (r : Except Error Nat) : Prop where
  /-- no arc is listed twice -/
  distinct : s.arcs.Nodup
  /-- all other arcs are as before -/
  arcs : s'.arcs.Perm (s.arcs.filter fun p => p ∉ s.taken me c aim)
  size : s'.size + (s.taken me c aim).length = s.size
  /-- all vertices but the orphans are as before -/
  vertices : ∀ key v, s'.lookupKey key = some v ↔
    s.lookupKey key = some v ∧ ¬ Orphaned me G c aim s s' v
  complete : s.stuck me c aim = [] → r = .ok (s.caught aim).length
  incomplete : s.stuck me c aim ≠ [] → ∃ cause, r = .error (.arc
    (.incomplete (s.taken me c aim).length (s.stuck me c aim).length cause))

theorem mem_taken_iff {p : PlacedArc} : p ∈ s.taken who.thread c aim ↔
    p ∈ s.arcs ∧ aim.hits p = true ∧ (!s.obstructed who.thread c (aim.otherEnd p)) = true := by
  rw [taken, caught, List.mem_filter, List.mem_filter, and_assoc]

theorem length_taken_add_stuck (s : Store) (who : Caller) (c : CellId) (aim : Aim) :
    (s.taken who.thread c aim).length +
    (s.stuck who.thread c aim).length = (s.caught aim).length := by
  rw [Nat.add_comm, stuck, taken, ← List.countP_eq_length_filter, ← List.countP_eq_length_filter,
    List.length_eq_countP_add_countP fun p => s.obstructed who.thread c (aim.otherEnd p)]
  simp only [Bool.not_eq_true, Bool.decide_eq_false]

theorem length_kept_add_taken (s : Store) (who : Caller) (c : CellId) (aim : Aim) :
    (s.arcs.filter fun p => p ∉ s.taken who.thread c aim).length +
    (s.taken who.thread c aim).length = s.arcs.length := by
  have htaken : s.taken who.thread c aim =
      s.arcs.filter fun p => p ∈ s.taken who.thread c aim := by
    conv_lhs => rw [taken, caught, List.filter_filter]
    refine List.filter_congr fun p hp => ?_
    rw [Bool.eq_iff_iff, decide_eq_true_eq, mem_taken_iff, Bool.and_eq_true, and_comm]
    exact ⟨fun h => ⟨hp, h⟩, fun h => h.2⟩
  rw [congrArg List.length htaken, ← List.countP_eq_length_filter,
    ← List.countP_eq_length_filter, Nat.add_comm,
    List.length_eq_countP_add_countP fun p => p ∈ s.taken who.thread c aim]
  simp

theorem obstructed_self (me : Thread) (c : CellId) : s.obstructed me c (s.keyOf c) = false := by
  simp [obstructed]

/-- Holding the anchor changes nothing about which neighbors stand in the way. -/
theorem obstructed_acquire {t : LockTable} (hp : s.Placed) (hg : s.Guarded G) (hc : s.Live c)
    (hacq : s.locks.acquire who.thread (s.lockItem c) .writable = .ok (g, t)) (key : VertexKey) :
    obstructed { s with locks := t } who.thread c key = s.obstructed who.thread c key := by
  have hg' := hg.acquire hc.1 hacq
  have hslot : g.item.slot = c := congrArg LockItem.slot (LockTable.acquire_ok hacq).2.1
  by_cases hself : key = s.keyOf c
  · rw [hself, obstructed_self]
    exact obstructed_self (s := { s with locks := t }) who.thread c
  · rw [obstructed, obstructed]
    have hlookup : lookupKey { s with locks := t } key = s.lookupKey key := rfl
    rw [hlookup]
    cases hk : s.lookupKey key with
    | none => rfl
    | some n =>
      have hne : c ≠ n := fun e => hself (e ▸ (hp.key_of_lookup hk).symm)
      have hother : Guard.onSlot n (g :: G) = Guard.onSlot n G := by
        rw [Guard.onSlot_cons, if_neg (hslot ▸ hne)]
      have hbusy := LockTable.acquire_congr who.thread .writable (s.lockItem n) hg.accounts
        hg'.accounts (LockTable.sameSettings_acquire hacq) rfl hother
      simp only [Option.any_some]
      exact congrArg (fun b => decide (key ≠ s.keyOf c) && !b) hbusy

/-! ## Arcs after the walk -/

section Walk

variable {filter : ArcFilter} {direction : Direction} {neighbor : Option VertexKey} {rm : Removal}

/-- The walk leaves all arcs but those that it is to take off. -/
theorem mem_arcs_severRun (hs : s.Sound .equal) (hc : s.Live c)
    (h : SeverRun who G c (s.groups c filter direction neighbor) rm s s')
    (hs' : (s'.less rm.removed).Sound .equal) {p : PlacedArc} :
    p ∈ s'.arcs ↔
      p ∈ s.arcs ∧ p ∉ s.taken who.thread c ⟨s.keyOf c, filter, direction, neighbor⟩ := by
  have hp' : s'.Placed := ⟨hs'.placed.lookup, hs'.placed.keyed⟩
  rw [mem_arcs_iff hp', mem_taken_iff]
  -- an arc is taken off exactly if its place is emptied
  have hemptied : ∀ i, s.Live i → s.keyOf i = p.initial → p.arc ∈ (s.data i).out.arcsTo p.terminal →
      (s'.arcIn? ⟨i, p.terminal, p.arc.relationship, p.arc.kind⟩ = some p.arc ↔
        ¬ (p ∈ s.arcs ∧ Aim.hits ⟨s.keyOf c, filter, direction, neighbor⟩ p = true ∧
          (!s.obstructed who.thread c (Aim.otherEnd ⟨s.keyOf c, filter, direction, neighbor⟩ p)) =
            true)) := by
    intro i hi hk hm
    have hfound : s.arcIn? ⟨i, p.terminal, p.arc.relationship, p.arc.kind⟩ = some p.arc :=
      (ArcIndex.mem_arcsTo_iff (hs.paired.valid i hi).1 _ _).1 hm
    have hplaces := mem_places_iff hs hc filter direction neighbor
      (fun key => !s.obstructed who.thread c key) hi hk hm
    have hlisted : p ∈ s.arcs := (mem_arcs_iff hs.placed).2 ⟨i, hi, hk, hm⟩
    rw [h.severed.arcs, clear, hfound]
    split
    next hin => simpa [hlisted] using hplaces.1 hin
    next hout =>
      refine ⟨fun _ htaken => hout (hplaces.2 htaken.2), fun _ => rfl⟩
  constructor
  · rintro ⟨i, hi, hk, hm⟩
    have hi₀ : s.Live i := ((h.severed.live i).1 hi).1
    have hk₀ : s.keyOf i = p.initial := (h.severed.extends.key i hi₀.1).symm.trans hk
    have hfound : s'.arcIn? ⟨i, p.terminal, p.arc.relationship, p.arc.kind⟩ = some p.arc :=
      (ArcIndex.mem_arcsTo_iff (hs'.paired.valid i hi).1 _ _).1 hm
    have hm₀ : p.arc ∈ (s.data i).out.arcsTo p.terminal := by
      rw [ArcIndex.mem_arcsTo_iff (hs.paired.valid i hi₀).1]
      rw [h.severed.arcs] at hfound
      split at hfound
      · cases hfound
      · exact hfound
    exact ⟨(mem_arcs_iff hs.placed).2 ⟨i, hi₀, hk₀, hm₀⟩, (hemptied i hi₀ hk₀ hm₀).1 hfound⟩
  · rintro ⟨hp, hkept⟩
    obtain ⟨i, hi, hk, hm⟩ := (mem_arcs_iff hs.placed).1 hp
    have hfound := (hemptied i hi hk hm).2 hkept
    have hlive : s'.Live i := by
      refine Classical.byContradiction fun hgone => ?_
      rw [arcIn?, (h.severed.bare i hi hgone).out] at hfound
      cases hfound
    refine ⟨i, hlive, (h.severed.extends.key i hi.1).trans hk, ?_⟩
    exact (ArcIndex.mem_arcsTo_iff (hs'.paired.valid i hlive).1 _ _).2 hfound

theorem perm_arcs_severRun (hs : s.Sound .equal) (hc : s.Live c)
    (h : SeverRun who G c (s.groups c filter direction neighbor) rm s s')
    (hs' : (s'.less rm.removed).Sound .equal) :
    s'.arcs.Perm (s.arcs.filter fun p =>
      p ∉ s.taken who.thread c ⟨s.keyOf c, filter, direction, neighbor⟩) := by
  have hnodup : s'.arcs.Nodup := nodup_arcs (s := s'.less rm.removed) hs'
  refine (List.perm_ext_iff_of_nodup hnodup ((nodup_arcs hs).filter _)).2 fun p => ?_
  rw [mem_arcs_severRun hs hc h hs', List.mem_filter, decide_eq_true_eq]

/-- The walk counts what it takes off and what it cannot. -/
theorem counts_severRun (hs : s.Sound .equal) (hc : s.Live c)
    (h : SeverRun who G c (s.groups c filter direction neighbor) rm s s')
    (hs' : (s'.less rm.removed).Sound .equal) :
    rm.removed =
        (s.taken who.thread c ⟨s.keyOf c, filter, direction, neighbor⟩).length ∧
      rm.remaining =
        (s.stuck who.thread c ⟨s.keyOf c, filter, direction, neighbor⟩).length ∧
      (rm.cause = none ↔ s.stuck who.thread c ⟨s.keyOf c, filter, direction, neighbor⟩ = []) := by
  have hsighted := perm_sighted hs hc filter direction neighbor
    (s.obstructed who.thread c) (obstructed_self who.thread c)
  have hstuck : s.stuck who.thread c ⟨s.keyOf c, filter, direction, neighbor⟩ =
      s.arcs.filter fun p => Aim.hits ⟨s.keyOf c, filter, direction, neighbor⟩ p &&
        s.obstructed who.thread c (Aim.otherEnd ⟨s.keyOf c, filter, direction, neighbor⟩ p) := by
    rw [stuck, caught, List.filter_filter]
    exact List.filter_congr fun p _ => Bool.and_comm _ _
  rw [← hstuck] at hsighted
  refine ⟨?_, ?_, ?_⟩
  · have hkept := length_kept_add_taken s who c ⟨s.keyOf c, filter, direction, neighbor⟩
    rw [← (perm_arcs_severRun hs hc h hs').length_eq, length_arcs hs] at hkept
    have hcount : s'.arcs.length = (s'.less rm.removed).size :=
      length_arcs (s := s'.less rm.removed) hs'
    have htally : (s'.less rm.removed).size + rm.removed = s.size := h.severed.tally
    rw [hcount, ← htally] at hkept
    exact (Nat.add_left_cancel hkept).symm
  · rw [h.remaining, blocked, length_groups_filter, ← hsighted.length_eq, List.length_map]
  · have hblocked := groups_filter_eq_nil_iff s c filter direction neighbor
      (s.obstructed who.thread c)
    have hnil : s.stuck who.thread c ⟨s.keyOf c, filter, direction, neighbor⟩ = [] ↔
        (s.aimedAt c filter direction neighbor).filter
          (fun seen => s.obstructed who.thread c seen.1) = [] := by
      rw [← List.length_eq_zero_iff, ← hsighted.length_eq, List.length_map,
        List.length_eq_zero_iff]
    have hcause := h.cause
    rw [hnil, ← hblocked, ← List.isEmpty_iff, ← Option.isNone_iff_eq_none,
      ← Option.not_isSome, hcause, blocked]
    cases ((s.groups c filter direction neighbor).filter fun group =>
      s.obstructed who.thread c group.1).isEmpty <;> simp

/-- The neighbors that the walk lets go of are at the ends of the arcs it takes off. -/
theorem mem_freed_iff (hs : s.Sound .equal) (hc : s.Live c) {v : CellId} (hv : s.Live v) :
    v ∈ (s.clear who.thread c (s.groups c filter direction neighbor)).filterMap
        (s.otherCell? c) ↔
      v ≠ c ∧ ∃ p ∈ s.taken who.thread c ⟨s.keyOf c, filter, direction, neighbor⟩,
        p.touches (s.keyOf v) := by
  have hlookup : ∀ key, s.lookupKey key = some v ↔ s.keyOf v = key := fun key =>
    (hs.placed.lookup key v).trans ⟨fun e => e.2, fun e => ⟨hv, e⟩⟩
  simp only [List.mem_filterMap, otherCell?, Option.filter_eq_some_iff, hlookup,
    decide_eq_true_eq, clear, List.mem_filter]
  constructor
  · rintro ⟨⟨key, arcs⟩, ⟨hgroup, hclear⟩, hk, hne⟩
    obtain ⟨⟨seen, hseen, rfl⟩, _⟩ := mem_groups_iff.1 hgroup
    obtain ⟨hlisted, hhits⟩ := (mem_aimedAt_sighted_iff hs hc).2 ⟨seen, hseen, rfl⟩
    refine ⟨hne, s.sighted c seen, mem_taken_iff.2 ⟨hlisted, hhits, ?_⟩, ?_⟩
    · rw [otherEnd_sighted]
      exact hclear
    · rw [sighted, hk]
      split
      · exact .inl rfl
      · exact .inr rfl
  · rintro ⟨hne, p, hp, ht⟩
    obtain ⟨hlisted, hhits, hclear⟩ := mem_taken_iff.1 hp
    obtain ⟨seen, hseen, rfl⟩ := (mem_aimedAt_sighted_iff hs hc).1 ⟨hlisted, hhits⟩
    rw [otherEnd_sighted] at hclear
    have hself : s.keyOf c ≠ s.keyOf v := fun e => hne (hs.placed.eq_of_key hv hc e.symm)
    have hk : s.keyOf v = seen.1 := by
      rw [sighted] at ht
      split at ht
      · exact ht.elim (fun e => e.symm) fun e => absurd e hself
      · exact ht.elim (fun e => absurd e hself) fun e => e.symm
    exact ⟨(seen.1, _), ⟨mem_groups_iff.2 ⟨⟨seen, hseen, rfl⟩, rfl⟩, hclear⟩, hk, hne⟩

end Walk

/-- Giving a guard up changes no arc. -/
theorem mem_arcs_drop (hs : s.Sound agree) (hg : s.Guarded (g :: G)) (hw : g.hold = .writer)
    {p : PlacedArc} : p ∈ (s.drop g).arcs ↔ p ∈ s.arcs := by
  have st := (drop_spec (W := fun _ => True) hg fun _ => trivial).1
  have hout : ∀ i, ((s.drop g).data i).out = (s.data i).out := by
    intro i
    rw [data_drop hg hw]
    split <;> rfl
  have hkey : ∀ i, s.Live i → (s.drop g).keyOf i = s.keyOf i := fun i hi =>
    (Steps.extends st).key i hi.1
  rw [mem_arcs_iff hs.placed, mem_arcs_iff (Steps.placed st hs.placed)]
  constructor
  · rintro ⟨i, hi, hk, hm⟩
    have hi₀ := ((live_drop_iff hg hw).1 hi).1
    exact ⟨i, hi₀, (hkey i hi₀).symm.trans hk, hout i ▸ hm⟩
  · rintro ⟨i, hi, hk, hm⟩
    refine ⟨i, (live_drop_iff hg hw).2 ⟨hi, fun hgone => ?_⟩, (hkey i hi).trans hk, hout i ▸ hm⟩
    rw [((hs.paired.bare_iff hi).1 hgone.2.2.2).out] at hm
    exact List.not_mem_nil hm

/-! ## The whole removal -/

section Whole

variable {filter : ArcFilter} {direction : Direction} {neighbor : Option VertexKey} {rm : Removal}
  {me : Thread}

/-- All guards on a vertex that a thread has to itself are that thread's. -/
theorem onSlot_eq_nil_iff {v : CellId} (hopen : Guard.Open G me v) :
    Guard.onSlot v G = [] ↔ ∀ g ∈ G, g.item.slot = v → g.thread ≠ me := by
  rw [Guard.onSlot, List.filter_eq_nil_iff]
  refine forall₂_congr fun g hg => ?_
  rw [decide_eq_true_eq]
  exact ⟨fun h e => absurd e h, fun h e => h e (hopen g hg e).2⟩

theorem extends_drop_severRun {groups : List Group}
    (h : SeverRun who (g :: G) c groups rm s s') :
    s.Extends ((s'.less rm.removed).drop g) := by
  have hg' : (s'.less rm.removed).Guarded (g :: G) := h.severed.guarded.less rm.removed
  have hdrop := Steps.extends (drop_spec (W := fun _ => True) hg' fun _ => trivial).1
  exact h.severed.extends.trans ⟨hdrop.count, hdrop.id, hdrop.key⟩

/-- A vertex is left in the graph if it is not an orphan. -/
theorem live_drop_severRun (hs : s.Sound .equal) (hc : s.Live c)
    (hw : g.hold = .writer) (hslot : g.item.slot = c) (hopen : Guard.Open G who.thread c)
    (h : SeverRun who (g :: G) c (s.groups c filter direction neighbor) rm s s')
    (hdropped : ((s'.less rm.removed).drop g).Sound .equal) {v : CellId} (hv : s.Live v) :
    ((s'.less rm.removed).drop g).Live v ↔
      ¬ Orphaned who.thread G c ⟨s.keyOf c, filter, direction, neighbor⟩ s
        ((s'.less rm.removed).drop g) v := by
  have hg' : (s'.less rm.removed).Guarded (g :: G) := h.severed.guarded.less rm.removed
  have hlive := live_drop_iff hg' hw (c := v)
  have hlive' : (s'.less rm.removed).Live v ↔ _ := h.severed.live v
  have hmanifest : ((s'.less rm.removed).data v).manifestation = (s.data v).manifestation :=
    h.severed.manifestation v
  have hkey : ∀ m, s.Live m → ((s'.less rm.removed).drop g).keyOf m = s.keyOf m :=
    fun m hm => (extends_drop_severRun h).key m hm.1
  have hothers : v ≠ c → Guard.onSlot v (g :: G) = Guard.onSlot v G := fun hne => by
    rw [Guard.onSlot_cons, if_neg fun e => hne (e.symm.trans hslot)]
  constructor
  · intro hl ho
    have hl' := hlive.1 hl
    have hzero : ((s'.less rm.removed).data v).degree = 0 := by
      have hzero := (degree_eq_zero_iff hdropped hl).2 fun p hp => (hkey v hv).symm ▸ ho.bare p hp
      rw [data_drop hg' hw] at hzero
      split at hzero <;> exact hzero
    by_cases hvc : v = c
    · refine hl'.2 ⟨hslot.trans hvc.symm, ?_, hmanifest.trans ho.virtual, hzero⟩
      exact (onSlot_eq_nil_iff (hvc ▸ hopen)).2 ho.unheld
    · have hfreed := (mem_freed_iff hs hc hv).2 ⟨hvc, ho.touched.resolve_left hvc⟩
      have hunheld : Guard.onSlot v G = [] :=
        (onSlot_eq_nil_iff (h.severed.others v hfreed).2.2.of_cons).2 ho.unheld
      exact (hlive'.1 hl'.1).2
        ⟨hfreed, (hothers hvc).trans hunheld, hmanifest.trans ho.virtual, hzero⟩
  · intro hno
    refine Classical.byContradiction fun hgone => hno ?_
    have hbare : ∀ p ∈ ((s'.less rm.removed).drop g).arcs, ¬ p.touches (s.keyOf v) := by
      intro p hp ht
      obtain ⟨m, hm, hk⟩ := live_of_mem_arcs hdropped hp ht
      have hmlive : s.Live m := ((h.severed.live m).1 ((live_drop_iff hg' hw).1 hm).1).1
      have hsame : m = v := hs.placed.eq_of_key hmlive hv ((hkey m hmlive).symm.trans hk)
      exact hgone (hsame ▸ hm)
    by_cases hl' : (s'.less rm.removed).Live v
    · obtain ⟨hvc, hunheld, hvirtual, _⟩ := not_not.1 fun e => hgone (hlive.2 ⟨hl', e⟩)
      have hvc : v = c := hvc.symm.trans hslot
      exact ⟨.inl hvc, hmanifest.symm.trans hvirtual, hbare,
        (onSlot_eq_nil_iff (hvc ▸ hopen)).1 hunheld⟩
    · obtain ⟨hfreed, hunheld, hvirtual, _⟩ := not_not.1 fun e => hl' (hlive'.2 ⟨hv, e⟩)
      obtain ⟨hvc, htouched⟩ := (mem_freed_iff hs hc hv).1 hfreed
      exact ⟨.inr htouched, hmanifest.symm.trans hvirtual, hbare,
        (onSlot_eq_nil_iff (h.severed.others v hfreed).2.2.of_cons).1
          ((hothers hvc).symm.trans hunheld)⟩

/-- A removal around a vertex that is held, and then given up. -/
theorem disconnected_of_severRun (hs : s.Sound .equal) (hc : s.Live c)
    (hw : g.hold = .writer) (hslot : g.item.slot = c) (hopen : Guard.Open G who.thread c)
    (h : SeverRun who (g :: G) c (s.groups c filter direction neighbor) rm s s') :
    Disconnected who.thread G c ⟨s.keyOf c, filter, direction, neighbor⟩ s
      ((s'.less rm.removed).drop g) rm.result := by
  have hs' : (s'.less rm.removed).Sound .equal := Steps.sound h.severed.steps hs
  have hg' : (s'.less rm.removed).Guarded (g :: G) := h.severed.guarded.less rm.removed
  have st := (drop_spec (W := fun _ => True) hg' fun _ => trivial).1
  have hdropped := Steps.sound st hs'
  obtain ⟨hremoved, hremaining, hcause⟩ := counts_severRun hs hc h hs'
  have hextends := extends_drop_severRun h
  refine ⟨nodup_arcs hs, ?_, ?_, fun key v => ?_, fun hnone => ?_, fun hsome => ?_⟩
  · refine List.Perm.trans ?_ (perm_arcs_severRun hs hc h hs')
    exact (List.perm_ext_iff_of_nodup (nodup_arcs hdropped)
      (nodup_arcs (s := s'.less rm.removed) hs')).2 fun p => mem_arcs_drop hs' hg' hw
  · rw [size_drop, ← hremoved]
    exact h.severed.tally
  · rw [hdropped.placed.lookup, hs.placed.lookup]
    constructor
    · rintro ⟨hl, hk⟩
      have hv : s.Live v := ((h.severed.live v).1 ((live_drop_iff hg' hw).1 hl).1).1
      exact ⟨⟨hv, (hextends.key v hv.1).symm.trans hk⟩,
        (live_drop_severRun hs hc hw hslot hopen h hdropped hv).1 hl⟩
    · rintro ⟨⟨hv, hk⟩, hno⟩
      exact ⟨(live_drop_severRun hs hc hw hslot hopen h hdropped hv).2 hno,
        (hextends.key v hv.1).trans hk⟩
  · rw [Removal.result, hcause.2 hnone, hremoved, ← length_taken_add_stuck s who c, hnone]
    rfl
  · cases hfirst : rm.cause with
    | none => exact absurd (hcause.1 hfirst) hsome
    | some cause =>
      refine ⟨cause, ?_⟩
      rw [Removal.result, hfirst, hremoved, hremaining]

/-- What a removal does can be told before its anchor is held. -/
theorem Disconnected.of_acquire {t : LockTable} {r : Except Error Nat} (hp : s.Placed)
    (hg : s.Guarded G) (hc : s.Live c)
    (hacq : s.locks.acquire who.thread (s.lockItem c) .writable = .ok (g, t))
    (h : Disconnected who.thread G c aim { s with locks := t } s' r) :
    Disconnected who.thread G c aim s s' r := by
  have hobstructed := obstructed_acquire hp hg hc hacq
  have htaken : taken { s with locks := t } who.thread c aim = s.taken who.thread c aim := by
    simp only [taken, caught, hobstructed]
    rfl
  have hstuck : stuck { s with locks := t } who.thread c aim = s.stuck who.thread c aim := by
    simp only [stuck, caught, hobstructed]
    rfl
  have horphaned : ∀ v, Orphaned who.thread G c aim { s with locks := t } s' v ↔
      Orphaned who.thread G c aim s s' v := fun v =>
    ⟨fun ⟨touched, virtual, bare, unheld⟩ => ⟨htaken ▸ touched, virtual, bare, unheld⟩,
      fun ⟨touched, virtual, bare, unheld⟩ => ⟨htaken.symm ▸ touched, virtual, bare, unheld⟩⟩
  refine ⟨h.distinct, htaken ▸ h.arcs, htaken ▸ h.size, fun key v => ?_, fun hnone => ?_,
    fun hsome => ?_⟩
  · rw [← horphaned]
    exact h.vertices key v
  · exact h.complete (hstuck.trans hnone)
  · obtain ⟨cause, hr⟩ := h.incomplete (hstuck ▸ hsome)
    exact ⟨cause, htaken ▸ hstuck ▸ hr⟩

end Whole

end Store

end Arcbase
