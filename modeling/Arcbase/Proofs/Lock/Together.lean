import Arcbase.Proofs.Lock.Balance
import Arcbase.Proofs.Lock.Sessions
set_option autoImplicit false

/-!
# Several items together

A request for several items gives a guard on each of them, in ascending order of their
ordinals, or it gives nothing and leaves every record as it was (`Together`).  That is so
after every run of a lock session, whatever its threads hold by then, and whatever it is
that the request is refused for (`together_run`).
-/

namespace Arcbase

open Guard

/-- A thread has access to an item in the mode of any guard of its own. -/
theorem LockRecord.Accounts.heldBy {limit : Nat} {r : LockRecord} {G : List Guard}
    (h : r.Accounts limit G) {g : Guard} (hg : g ∈ G) : r.heldBy g.thread = some g.mode := by
  cases h with
  | free => exact absurd hg List.not_mem_nil
  | @readonly readers _ _ reading depths _ =>
    have hdepth : depth g.thread G ≠ 0 := fun hz => depth_eq_zero_iff.1 hz g hg rfl
    have hin : readers.contains g.thread = true := by
      rw [AssocMap.contains, depths, if_neg hdepth]
      rfl
    simp only [LockRecord.heldBy, reduceCtorEq, if_false, hin, if_true, Guard.mode, reading g hg]
    rfl
  | writable _ writing =>
    obtain ⟨hhold, hthread⟩ := writing g hg
    simp only [LockRecord.heldBy, hthread, if_true, Guard.mode, hhold]
    rfl

namespace LockTable

variable {t t' : LockTable} {G : List Guard} {me : Thread} {mode : LockMode}
  {items : List LockItem}

/-! ## What a request leaves alone -/

theorem record_releaseAll {slot : Nat} (t : LockTable) {guards : List Guard}
    (hout : ∀ g ∈ guards, g.item.slot ≠ slot) :
    (t.releaseAll guards).record slot = t.record slot := by
  induction guards generalizing t with
  | nil => rfl
  | cons g rest ih =>
    refine (ih (t.release g) fun g' hm => hout g' (List.mem_cons_of_mem g hm)).trans ?_
    rw [record_release, if_neg (hout g List.mem_cons_self)]

theorem record_acquireInOrder {slot : Nat} {taken : List Guard}
    (hout : ∀ item ∈ items, item.slot ≠ slot) (htaken : ∀ g ∈ taken, g.item.slot ≠ slot) :
    (acquireInOrder me mode items taken t).2.record slot = t.record slot := by
  induction items generalizing t taken with
  | nil => rfl
  | cons item rest ih =>
    unfold acquireInOrder
    cases ha : t.acquire me item mode with
    | error e => exact record_releaseAll t htaken
    | ok p =>
      obtain ⟨g, t₁⟩ := p
      obtain ⟨_, hitem, r, hr, _⟩ := acquire_ok ha
      have hfirst := hout item List.mem_cons_self
      have hgot : ∀ g' ∈ taken ++ [g], g'.item.slot ≠ slot := by
        intro g' hm
        obtain hm | hm := List.mem_append.1 hm
        · exact htaken g' hm
        · rw [List.mem_singleton.1 hm, hitem]
          exact hfirst
      refine (ih (fun other hm => hout other (List.mem_cons_of_mem item hm)) hgot).trans ?_
      rw [hr.record, if_neg hfirst]

/-- The items of others are none of the request's. -/
theorem record_acquireMany {slot : Nat} (hout : ∀ item ∈ items, item.slot ≠ slot) :
    (t.acquireMany me items mode).2.record slot = t.record slot := by
  unfold acquireMany
  dsimp only
  split
  · rfl
  · refine record_acquireInOrder (fun item hm => hout item ?_)
      fun g hm => absurd hm List.not_mem_nil
    exact (List.mergeSort_perm items _).mem_iff.1 hm

/-! ## Naming an item twice -/

theorem mem_of_duplicate? {item : LockItem} (h : duplicate? items = some item) : item ∈ items := by
  induction items with
  | nil => cases h
  | cons a rest ih =>
    cases rest with
    | nil => cases h
    | cons b rest =>
      unfold duplicate? at h
      split at h
      · cases h
        exact List.mem_cons_self
      · exact List.mem_cons_of_mem a (ih h)

/-- A request that has an ordinal twice is refused without a look at any record. -/
theorem repeated_iff (t : LockTable) (me : Thread) (items : List LockItem) (mode : LockMode) :
    ¬ (items.map LockItem.ordinal).Nodup ↔
      ∃ item ∈ items, t.acquireMany me items mode =
        (.error (.vertex (.duplicateInRequest item.label)), t) := by
  have hperm := List.mergeSort_perm items fun a b => a.ordinal ≤ b.ordinal
  unfold acquireMany
  dsimp only
  cases hdup : duplicate? (items.mergeSort fun a b => a.ordinal ≤ b.ordinal) with
  | some item =>
    refine iff_of_true (fun hnodup => ?_) ⟨item, hperm.mem_iff.1 (mem_of_duplicate? hdup), rfl⟩
    rw [duplicate?_of_nodup ((hperm.map _).nodup_iff.2 hnodup)] at hdup
    cases hdup
  | none =>
    have hnodup := (hperm.map _).nodup_iff.1 (nodup_of_duplicate? hdup (pairwise_ordinal items))
    refine iff_of_false (fun hn => hn hnodup) ?_
    rintro ⟨item, _, he⟩
    dsimp only at he
    generalize acquireInOrder me mode _ [] t = result at he
    obtain ⟨r, t₁⟩ := result
    cases r <;> cases he

/-! ## When a request is granted -/

/-- Items that are had together can each be had alone. -/
theorem isOk_of_acquireInOrder {taken all : List Guard} (h : t.Accounts G)
    (hslots : (items.map LockItem.slot).Nodup)
    (hrun : acquireInOrder me mode items taken t = (.ok all, t')) :
    ∀ item ∈ items, (t.acquire me item mode).isOk = true := by
  induction items generalizing t G taken with
  | nil => exact fun item hm => absurd hm List.not_mem_nil
  | cons item rest ih =>
    obtain ⟨hfirst, hrest⟩ := List.nodup_cons.1 hslots
    unfold acquireInOrder at hrun
    cases ha : t.acquire me item mode with
    | error e =>
      rw [ha] at hrun
      cases hrun
    | ok p =>
      obtain ⟨g, t₁⟩ := p
      rw [ha] at hrun
      have hslot : g.item.slot = item.slot := congrArg LockItem.slot (acquire_ok ha).2.1
      have h₁ := accounts_acquire h ha
      intro other hm
      obtain rfl | hm := List.mem_cons.1 hm
      · rw [ha]
        rfl
      · have hne : g.item.slot ≠ other.slot := fun e =>
          hfirst (hslot.symm.trans e ▸ List.mem_map_of_mem hm)
        have hguards : onSlot other.slot (g :: G) = onSlot other.slot G := by
          rw [onSlot_cons, if_neg hne]
        rw [← acquire_congr me mode other h h₁ (sameSettings_acquire ha) rfl hguards]
        exact ih h₁ hrest hrun other hm

theorem granted_iff (h : t.Accounts G)
    (hordered : ∀ a ∈ items, ∀ b ∈ items, a.slot = b.slot → a.ordinal = b.ordinal) :
    (∃ guards t', t.acquireMany me items mode = (.ok guards, t')) ↔
      (items.map LockItem.ordinal).Nodup ∧
        ∀ item ∈ items, (t.acquire me item mode).isOk = true := by
  have hperm := List.mergeSort_perm items fun a b => a.ordinal ≤ b.ordinal
  constructor
  · rintro ⟨guards, t', hrun⟩
    have hnodup : (items.map LockItem.ordinal).Nodup := by
      by_contra hn
      obtain ⟨item, _, he⟩ := (repeated_iff t me items mode).1 hn
      rw [hrun] at he
      cases he
    refine ⟨hnodup, fun item hm => ?_⟩
    have hslots := (hperm.map LockItem.slot).nodup_iff.2 (nodup_slots hnodup hordered)
    simp only [acquireMany, duplicate?_of_nodup ((hperm.map _).nodup_iff.2 hnodup)] at hrun
    cases hin : acquireInOrder me mode (items.mergeSort fun a b => a.ordinal ≤ b.ordinal) [] t with
    | mk r t₁ =>
      rw [hin] at hrun
      cases r with
      | error e => cases hrun
      | ok all => exact isOk_of_acquireInOrder h hslots hin item (hperm.mem_iff.2 hm)
  · rintro ⟨hnodup, hok⟩
    exact acquireMany_isOk h (nodup_slots hnodup hordered) hnodup hok

/-- The guards come in the order in which their items are taken. -/
theorem items_acquireMany {new : List Guard} (h : t.Accounts G)
    (hrun : t.acquireMany me items mode = (.ok new, t')) :
    new.map Guard.item = items.mergeSort fun a b => a.ordinal ≤ b.ordinal := by
  unfold acquireMany at hrun
  dsimp only at hrun
  split at hrun
  next => cases hrun
  next =>
    cases hin : acquireInOrder me mode (items.mergeSort fun a b => a.ordinal ≤ b.ordinal) [] t with
    | mk r t₁ =>
      rw [hin] at hrun
      cases r with
      | error e => cases hrun
      | ok all =>
        cases hrun
        obtain ⟨_, new, rfl, hgranted, _⟩ := acquireInOrder_spec [] h hin
        exact hgranted.items

theorem ascending_acquireMany {new : List Guard} (h : t.Accounts G)
    (hrun : t.acquireMany me items mode = (.ok new, t')) :
    new.Pairwise fun g g' => g.item.ordinal < g'.item.ordinal := by
  have hitems := items_acquireMany h hrun
  have hnodup : (items.map LockItem.ordinal).Nodup := by
    by_contra hn
    obtain ⟨item, _, he⟩ := (repeated_iff t me items mode).1 hn
    rw [hrun] at he
    cases he
  have hdistinct := (((List.mergeSort_perm items fun a b => a.ordinal ≤ b.ordinal).map
    LockItem.ordinal).nodup_iff).2 hnodup
  have hle := pairwise_ordinal items
  rw [← hitems, List.Nodup, List.pairwise_map, List.pairwise_map] at hdistinct
  rw [← hitems, List.pairwise_map] at hle
  exact hle.imp₂ (fun _ _ hle hne => Nat.lt_of_le_of_ne hle hne) hdistinct

/-- Nothing at all is given in no mode. -/
theorem acquireMany_none {new : List Guard} (h : t.Accounts G)
    (hrun : t.acquireMany me items .none = (.ok new, t')) : new = [] := by
  have hitems := items_acquireMany h hrun
  unfold acquireMany at hrun
  dsimp only at hrun
  split at hrun
  next => cases hrun
  next =>
    rw [← hitems] at hrun
    cases new with
    | nil => rfl
    | cons g rest => cases hrun

theorem mode_acquireMany {new : List Guard} (h : t.Accounts G)
    (hrun : t.acquireMany me items mode = (.ok new, t')) {g : Guard} (hg : g ∈ new) :
    g.mode = mode ∨ g.mode = .writable := by
  cases mode with
  | none =>
    rw [acquireMany_none h hrun] at hg
    exact absurd hg List.not_mem_nil
  | readonly =>
    unfold Guard.mode
    cases g.hold
    · exact .inl rfl
    · exact .inr rfl
  | writable =>
    obtain ⟨_, _, _, _, hgranted, _⟩ := acquireMany_spec h hrun
    exact .inl (congrArg Hold.mode (hgranted.alone rfl g hg).1)

end LockTable

/-! ## Lock sessions -/

namespace LockSession

/-- What a thread has gained by a request: one guard on each item, in ascending order, and
nothing else is changed.  Giving the guards back leads to the records as they were. -/
structure Gained (s : LockSession) (me : Thread) (items : List LockItem) (mode : LockMode)
    (guards : List Guard) (t : LockTable) : Prop where
  each : (guards.map Guard.item).Perm items
  ascending : guards.Pairwise fun g g' => g.item.ordinal < g'.item.ordinal
  thread : ∀ g ∈ guards, g.thread = me
  mode : ∀ g ∈ guards, g.mode = mode ∨ g.mode = .writable
  held : ∀ g ∈ guards, (t.record g.item.slot).heldBy me = some g.mode
  /-- the records are those of the guards that were held and of the new ones -/
  shape : ∀ slot, (t.record slot).Shape s.table.limit (onSlot slot (guards ++ s.held))
  others : ∀ slot, (∀ item ∈ items, item.slot ≠ slot) → t.record slot = s.table.record slot
  returned : s.table.Matches (t.releaseAll guards)

/-- A request for several items gives all of them or none. -/
structure Together (s : LockSession) (me : Thread) (items : List LockItem) (mode : LockMode) :
    Prop where
  gained : ∀ guards t, s.table.acquireMany me items mode = (.ok guards, t) →
    s.Gained me items mode guards t
  /-- after a refusal every record and the number of written items are as before -/
  refused : ∀ e t, s.table.acquireMany me items mode = (.error e, t) → s.table.Matches t
  /-- an ordinal that occurs twice is refused with the table untouched, and by that fault -/
  repeated : ¬ (items.map LockItem.ordinal).Nodup ↔
    ∃ item ∈ items, s.table.acquireMany me items mode =
      (.error (.vertex (.duplicateInRequest item.label)), s.table)
  /-- where a record belongs to one ordinal, what can be had alone can be had together -/
  granted : (∀ a ∈ items, ∀ b ∈ items, a.slot = b.slot → a.ordinal = b.ordinal) →
    ((∃ guards t, s.table.acquireMany me items mode = (.ok guards, t)) ↔
      (items.map LockItem.ordinal).Nodup ∧ ∀ item ∈ items, s.Admits me item mode)

variable {limit : Nat} {s : LockSession} {me : Thread} {items : List LockItem} {mode : LockMode}

theorem Sound.gained (h : s.Sound limit []) {guards : List Guard} {t : LockTable}
    (hrun : s.table.acquireMany me items mode = (.ok guards, t)) :
    s.Gained me items mode guards t := by
  have hacc : s.table.Accounts s.held := h.accounts
  obtain ⟨hset, sorted, hperm, _, hgranted, hafter⟩ := LockTable.acquireMany_spec hacc hrun
  refine ⟨?_, LockTable.ascending_acquireMany hacc hrun, hgranted.thread,
    fun g hg => LockTable.mode_acquireMany hacc hrun hg, fun g hg => ?_, fun slot => ?_,
    fun slot hout => ?_, LockTable.balance_acquireMany hacc hrun⟩
  · rw [hgranted.items]
    exact hperm.symm
  · have hrec := hafter.record g.item.slot
    rw [← hgranted.thread g hg]
    exact hrec.heldBy (mem_onSlot.2 ⟨List.mem_append_left _ hg, rfl⟩)
  · rw [← hset.limit]
    exact (hafter.record slot).shape
  · have hother : (s.table.acquireMany me items mode).2.record slot = s.table.record slot :=
      LockTable.record_acquireMany hout
    rwa [hrun] at hother

theorem Sound.together (h : s.Sound limit []) (me : Thread) (items : List LockItem)
    (mode : LockMode) : s.Together me items mode where
  gained _ _ hrun := h.gained hrun
  refused e t hrun := LockTable.balance_acquireMany h.accounts hrun
  repeated := LockTable.repeated_iff s.table me items mode
  granted hordered := by
    rw [LockTable.granted_iff h.accounts hordered]
    refine and_congr_right fun _ => forall₂_congr fun item _ => ?_
    rw [← h.admits_iff]
    cases s.table.acquire me item mode <;> simp [Except.isOk, Except.toBool]

/-- Whatever the threads of a session have done, a request for several items gives all of
them or none. -/
theorem together_run (limit defaultWait : Nat) (requests : List LockRequest) (me : Thread)
    (items : List LockItem) (mode : LockMode) :
    ((new limit defaultWait).run requests).Together me items mode :=
  (sound_run (sound_new limit defaultWait) requests).together me items mode

end LockSession

end Arcbase
