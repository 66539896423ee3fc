import Arcbase.Proofs.Session.Exclusive
import Arcbase.Proofs.Session.Linking
set_option autoImplicit false

/-!
# What is left of a connect that fails

A connect, a count, an accumulation or an addition that fails has written no arc, whichever
of its terminals it fails for.  All it may leave is its initial, bare and real
(`Unwritten.come`).  Giving its ends up again it takes out, as whoever holds it does, a
virtual end without arcs that nobody else holds; only a restore leaves such a vertex
(`unwritten_of_error`).
-/

namespace Arcbase

open Arcbase.Action Store

variable {agree : Agreement} {who : Caller} {r : ConnectRequest} {u : ArcUpdate} {G : List Guard}
  {s s' : Store} {e : Error}

/-- A virtual vertex without arcs that nobody holds. -/
structure Stray (G : List Guard) (s : Store) (c : CellId) : Prop where
  manifestation : (s.data c).manifestation = .virtual
  degree : (s.data c).degree = 0
  unheld : Guard.onSlot c G = []

/-- A request has written no arcs, and of its ends at most the initial has come. -/
structure Unwritten (who : Caller) (r : ConnectRequest) (G : List Guard) (s s' : Store) : Prop where
  arcs : ∀ p, p ∈ s'.arcs ↔ p ∈ s.arcs
  size : s'.size = s.size
  schedule : s'.schedule = s.schedule
  /-- All vertices are as they were, but that an end which is stray may be gone. -/
  kept : ∀ id c, s.lookup id = some c → s'.lookup id = some c ∧ s'.cell c = s.cell c ∨
    s'.lookup id = none ∧ (id = r.initial ∨ id ∈ r.terminals.ids) ∧ Stray G s c
  come : ∀ id c, s'.lookup id = some c → s.lookup id = some c ∨
    id = r.initial ∧ s.lookup id = none ∧ s'.cell c = .new r.initial .real who.now

theorem Unwritten.refl (s : Store) : Unwritten who r G s s :=
  ⟨fun _ => .rfl, rfl, rfl, fun _ _ hc => .inl ⟨hc, rfl⟩, fun _ _ hc => .inl hc⟩

/-- What has been registered alone. -/
theorem unwritten_of_grown {new : List Cell} (hp : s.Placed) (hp' : s'.Placed)
    (grown : Grown new s s') (bare : ∀ vertex ∈ new, vertex = .new r.initial .real who.now) :
    Unwritten who r G s s' := by
  have hkept : ∀ {id c}, s.lookup id = some c → s'.lookup id = some c ∧ s'.cell c = s.cell c := by
    intro id c hc
    obtain ⟨hlive, hid⟩ := hp.of_lookup hc
    have hcell := grown.cell c hlive.1
    have hfound := hp'.lookup_of_live ((grown.live_iff hlive.1).2 hlive)
    rw [hcell, hid] at hfound
    exact ⟨hfound, hcell⟩
  have harcs : s'.arcs = s.arcs := grown.arcs hp fun vertex hm => by rw [bare vertex hm]; rfl
  refine ⟨fun p => by rw [harcs], grown.size, grown.schedule, fun id c hc => .inl (hkept hc),
    fun id c hc => ?_⟩
  obtain ⟨hlive', hid⟩ := hp'.of_lookup hc
  by_cases hlive : s.Live c
  · left
    rw [← hid, grown.cell c hlive.1]
    exact hp.lookup_of_live hlive
  · obtain ⟨hsize, hm⟩ := grown.mem_new hp hp' hlive' hlive
    have hcell := bare _ hm
    refine .inr ⟨by rw [← hid, hcell]; rfl, ?_, hcell⟩
    refine Option.eq_none_iff_forall_ne_some.2 fun c' hc' => ?_
    obtain rfl := Option.some.inj (hc.symm.trans (hkept hc').1)
    exact hlive (hp.of_lookup hc').1

section Refused

variable {gate : Option Gate} {code : LabelCode} {i : CellId} {cells : List CellId}
  {new : List Guard} {s₁ : Store} {locks : LockTable}

/-- The ends of a request are held. -/
theorem Action.HeldEnds.held_iff (h : HeldEnds agree who r gate code G s i cells new s₁ locks)
    {c : CellId} : (∃ g ∈ new, g.item.slot = c) ↔ c = i ∨ c ∈ cells := by
  have hslots : (∃ g ∈ new, g.item.slot = c) ↔ c ∈ i :: cells.filter (· ≠ i) := by
    rw [h.given.slots.mem_iff, List.mem_map]
  rw [hslots, List.mem_cons, List.mem_filter]
  by_cases hc : c = i <;> simp [hc]

section Held

variable (h : HeldEnds agree who r gate code G s i cells new s₁ locks) (hs : s.Sound agree)
include h hs

/-- An end that was there goes with the guards if it was stray. -/
theorem Action.HeldEnds.dropped_iff {id : String} {c : CellId} (hc : s.lookup id = some c) :
    Dropped new G { s₁ with locks } c ↔ (id = r.initial ∨ id ∈ r.terminals.ids) ∧ Stray G s c := by
  obtain ⟨hlive, hid⟩ := hs.placed.of_lookup hc
  have hsame : s₁.cell c = s.cell c := h.located.cell hlive.1
  have hdata : Store.data { s₁ with locks } c = s.data c := congrArg Cell.data hsame
  have hp₁ := h.located.enlarged.sound.placed
  have hfound : s₁.lookup id = some c := by
    have hfound := hp₁.lookup_of_live (h.located.enlarged.live c hlive)
    rwa [hsame, hid] at hfound
  have hend : (∃ g ∈ new, g.item.slot = c) ↔ id = r.initial ∨ id ∈ r.terminals.ids := by
    rw [h.held_iff]
    constructor
    · rintro (rfl | hm)
      · exact .inl ((hp₁.of_lookup hfound).2.symm.trans (hp₁.of_lookup h.located.initial).2)
      · obtain ⟨id', hid', hlookup⟩ := h.located.id_of_mem hm
        exact .inr ((hp₁.of_lookup hfound).2.symm.trans (hp₁.of_lookup hlookup).2 ▸ hid')
    · rintro (rfl | hm)
      · exact .inl (Option.some.inj (hfound.symm.trans h.located.initial))
      · obtain ⟨t, ht, hlookup⟩ := h.located.terminal hm
        exact .inr (Option.some.inj (hfound.symm.trans hlookup) ▸ ht)
  constructor
  · rintro ⟨hheld, hunheld, hvirtual, hbare⟩
    exact ⟨hend.1 hheld, hdata ▸ hvirtual, hdata ▸ hbare, hunheld⟩
  · rintro ⟨hnamed, hvirtual, hbare, hunheld⟩
    exact ⟨hend.2 hnamed, hunheld, hdata ▸ hvirtual, hdata ▸ hbare⟩

/-- A vertex that was there is as it was, or it is gone if it was a stray end. -/
theorem Action.HeldEnds.kept_or_gone {id : String} {c : CellId} (hc : s.lookup id = some c) :
    (({ s₁ with locks } : Store).dropAll new).lookup id = some c ∧
        (({ s₁ with locks } : Store).dropAll new).cell c = s.cell c ∧
          ¬ Dropped new G { s₁ with locks } c ∨
      (({ s₁ with locks } : Store).dropAll new).lookup id = none ∧
        Dropped new G { s₁ with locks } c := by
  obtain ⟨hlive, hid⟩ := hs.placed.of_lookup hc
  have hsame : s₁.cell c = s.cell c := h.located.cell hlive.1
  have hlive₁ : s₁.Live c := h.located.enlarged.live c hlive
  have hsound := sound_dropAll h.sound new
  have hiff := fun c => live_dropAll_iff (c := c) h.guarded h.given.writer
  by_cases hdropped : Dropped new G { s₁ with locks } c
  · refine .inr ⟨Option.eq_none_iff_forall_ne_some.2 fun c' hc' => ?_, hdropped⟩
    -- what would still be under the identifier was the same vertex before
    obtain ⟨hlive', hid'⟩ := hsound.placed.of_lookup hc'
    rw [cell_dropAll h.guarded h.given.writer hlive'] at hid'
    obtain rfl : c' = c := h.located.enlarged.sound.placed.eq_of_id ((hiff c').1 hlive').1 hlive₁
      (hid'.trans (hsame ▸ hid.symm))
    exact ((hiff c').1 hlive').2 hdropped
  · have hlive' := (hiff c).2 ⟨hlive₁, hdropped⟩
    have hcell : (({ s₁ with locks } : Store).dropAll new).cell c = s.cell c :=
      (cell_dropAll h.guarded h.given.writer hlive').trans hsame
    have hfound := hsound.placed.lookup_of_live hlive'
    rw [hcell, hid] at hfound
    exact .inl ⟨hfound, hcell, hdropped⟩

/-- What is there afterwards was there before, or it is the initial. -/
theorem Action.HeldEnds.come (hg : s.Guarded G) {id : String} {c : CellId}
    (hc : (({ s₁ with locks } : Store).dropAll new).lookup id = some c) :
    s.lookup id = some c ∨ id = r.initial ∧ s.lookup id = none ∧
      (({ s₁ with locks } : Store).dropAll new).cell c = .new r.initial .real who.now := by
  have hlabelled : Sound agree { s with labels := s₁.labels } := hs.withLabels _
  have hp₁ := h.located.enlarged.sound.placed
  obtain ⟨hlive', hid⟩ := (sound_dropAll h.sound new).placed.of_lookup hc
  obtain ⟨hlive₁, hkept⟩ := (live_dropAll_iff h.guarded h.given.writer).1 hlive'
  have hsame : (({ s₁ with locks } : Store).dropAll new).cell c = s₁.cell c :=
    cell_dropAll h.guarded h.given.writer hlive'
  by_cases hlive : s.Live c
  · left
    rw [← hid, hsame]
    exact h.located.cell hlive.1 ▸ hs.placed.lookup_of_live hlive
  · obtain ⟨hsize, hnew | ⟨hm, id', hnew⟩⟩ := h.located.come hlabelled hlive₁ hlive
    · have hinitial : id = r.initial := by rw [← hid, hsame, hnew]; rfl
      refine .inr ⟨hinitial, Option.eq_none_iff_forall_ne_some.2 fun c' hc' => ?_,
        hsame.trans hnew⟩
      have hbefore := h.located.enlarged.lookup hlabelled.placed hc'
      have hafter := hp₁.lookup_of_live hlive₁
      rw [← hsame, hid] at hafter
      obtain rfl := Option.some.inj (hafter.symm.trans hbefore)
      exact hlive (hs.placed.of_lookup hc').1
    · -- a terminal that has come is given up again
      have hdata : Store.data { s₁ with locks } c = .new .virtual who.now :=
        congrArg Cell.data hnew
      refine absurd ⟨h.held_iff.2 (.inr hm), ?_, hdata ▸ rfl, hdata ▸ rfl⟩ hkept
      refine List.filter_eq_nil_iff.2 fun g hg' => ?_
      have hne : g.item.slot ≠ c :=
        Nat.ne_of_lt (Nat.lt_of_lt_of_le (hg.item g hg').1 hsize)
      simpa using hne

theorem unwritten_of_held (hg : s.Guarded G) :
    Unwritten who r G s (({ s₁ with locks } : Store).dropAll new) := by
  have hsound := sound_dropAll h.sound new
  have harcs := sameArcs_dropAll h.sound h.guarded h.given.writer
  refine ⟨fun p => ?_, (size_dropAll _ new).trans h.located.size,
    (sameDates_dropAll _ new).schedule.trans h.located.schedule, fun id c hc => ?_,
    fun id c hc => h.come hs hg hc⟩
  · refine Iff.trans ⟨harcs.symm.mem_arcs hsound h.sound, harcs.mem_arcs h.sound hsound⟩ ?_
    exact h.located.enlarged.arcs p
  · rcases h.kept_or_gone hs hc with ⟨hfound, hcell, _⟩ | ⟨hgone, hdropped⟩
    · exact .inl ⟨hfound, hcell⟩
    · exact .inr ⟨hgone, (h.dropped_iff hs hc).1 hdropped⟩

end Held

end Refused

theorem Action.ConnectRun.unwritten (h : ConnectRun agree who r u G s (.error e) s')
    (hs : s.Sound agree) (hg : s.Guarded G) (hp' : s'.Placed) : Unwritten who r G s s' := by
  cases h with
  | withdrawn _ grown bare => exact unwritten_of_grown hs.placed hp' grown bare
  | refused held _ => exact unwritten_of_held held hs hg

theorem Linking.unwritten {α : Type} {answer : Except Error α}
    (h : Linking agree who r G s answer s') (herror : answer = .error e) (hs : s.Sound agree)
    (hg : s.Guarded G) (hp' : s'.Placed) : Unwritten who r G s s' := by
  cases h with
  | unfit => exact .refl s
  | failed run => exact run.unwritten hs hg hp'
  | done => cases herror

/-- A graph in use has no strays. -/
theorem not_stray_of_arises {s : Session} (h : Arises Operation.Live s) {c : CellId}
    (hc : s.store.Live c) : ¬ Stray s.guards s.store c := by
  rintro ⟨hvirtual, hbare, hunheld⟩
  rcases h.kempt.kept c ⟨hc, hvirtual⟩ with harcs | ⟨g, hg, _, hslot⟩ | hloose
  · exact harcs hbare
  · have hheld : g ∈ Guard.onSlot c s.guards := List.mem_filter.2 ⟨hg, by simpa using hslot⟩
    rw [hunheld] at hheld
    exact List.not_mem_nil hheld
  · exact List.not_mem_nil hloose

end Arcbase
