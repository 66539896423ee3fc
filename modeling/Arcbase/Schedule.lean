import Arcbase.AssocMap
set_option autoImplicit false

/-!
# The expiration schedule

A schedule gives every pending item exactly one time.  Setting an item's time
again replaces the old one; putting an item back after a failed attempt does not
override a time that was set meanwhile.  Items that are due come out ordered by
time, and at one time by when they were last set.

A pending item has a slot: its time, and its turn among the items of that time.  Two
tables are kept of this, the items by their slots, earliest first, and the slots by
their items.  The tables are *consistent* if the first is in order, each is the
inverse of the other, and no turn is higher than the last one given out.  Every
change of the tables keeps that, and the tables of a schedule have it by its type.
-/

namespace Arcbase

/-- What can expire. -/
inductive Expiring where
  | vertex (id : String)
  /-- all arcs of a relationship from one vertex to another -/
  | arc (initial relationship terminal : String)
  deriving DecidableEq, Repr

/-! ## Slots -/

/-- When an item is due, and its turn among those of the same time. -/
structure DueSlot where
  time : UInt32
  turn : Nat
  deriving DecidableEq, Repr

namespace DueSlot

/-- Earlier times first, then earlier turns. -/
def Before (a b : DueSlot) : Prop := a.time < b.time ∨ a.time = b.time ∧ a.turn < b.turn

instance (a b : DueSlot) : Decidable (a.Before b) := inferInstanceAs (Decidable (_ ∨ _))

theorem Before.irrefl (a : DueSlot) : ¬ a.Before a := by
  rintro (h | ⟨_, h⟩)
  · exact UInt32.lt_irrefl _ h
  · exact Nat.lt_irrefl _ h

theorem Before.trans {a b c : DueSlot} (h : a.Before b) (h' : b.Before c) : a.Before c := by
  obtain h | ⟨e, h⟩ := h
  · obtain h' | ⟨e', _⟩ := h'
    · exact .inl (UInt32.lt_trans h h')
    · exact .inl (e' ▸ h)
  · obtain h' | ⟨e', h'⟩ := h'
    · exact .inl (e ▸ h')
    · exact .inr ⟨e.trans e', Nat.lt_trans h h'⟩

theorem before_of_not_before {a b : DueSlot} (h : ¬ a.Before b) (hne : a ≠ b) : b.Before a := by
  have htime : ¬ a.time < b.time := fun hlt => h (.inl hlt)
  obtain hlt | heq := UInt32.lt_or_eq_of_le (UInt32.not_lt.1 htime)
  · exact .inl hlt
  · have hturn : ¬ a.turn < b.turn := fun hlt => h (.inr ⟨heq.symm, hlt⟩)
    have hturns : b.turn ≠ a.turn := by
      intro e
      cases a
      cases b
      exact hne (by simp_all)
    exact .inr ⟨heq, Nat.lt_of_le_of_ne (Nat.not_lt.1 hturn) hturns⟩

/-- The slot after all slots of a time, unless the time is the last of all. -/
def after? (time : UInt32) : Option DueSlot :=
  if time.toNat + 1 < UInt32.size then some ⟨time + 1, 0⟩ else none

theorem before_after_iff {time : UInt32} {key : DueSlot} (h : after? time = some key)
    (slot : DueSlot) : slot.Before key ↔ slot.time ≤ time := by
  unfold after? at h
  split at h
  next hroom =>
    cases h
    have hnext : (time + 1).toNat = time.toNat + 1 := by
      rw [UInt32.toNat_add]
      exact Nat.mod_eq_of_lt hroom
    have hturn : ¬ slot.turn < 0 := Nat.not_lt_zero _
    simp only [Before, hturn, and_false, or_false, UInt32.lt_iff_toNat_lt, hnext,
      UInt32.le_iff_toNat_le]
    exact Nat.lt_succ_iff
  next => cases h

theorem le_of_after?_eq_none {time : UInt32} (h : after? time = none) (time' : UInt32) :
    time' ≤ time := by
  unfold after? at h
  split at h
  next => cases h
  next hroom =>
    rw [UInt32.le_iff_toNat_le]
    have hlt := time'.toNat_lt
    exact Nat.le_of_lt_succ (Nat.lt_of_lt_of_le hlt (Nat.not_lt.1 hroom))

end DueSlot

/-! ## Items by their slots -/

/-- Items by their slots, earliest first. -/
abbrev DueList : Type := List (DueSlot × Expiring)

namespace DueList

/-- Puts an item into its place, over one that has the same slot. -/
def place (slot : DueSlot) (item : Expiring) : DueList → DueList
  | [] => [(slot, item)]
  | p :: rest =>
    if slot.Before p.1 then (slot, item) :: p :: rest
    else if slot = p.1 then (slot, item) :: rest
    else p :: place slot item rest

/-- Empties a slot. -/
def remove (slot : DueSlot) (l : DueList) : DueList := l.filter fun p => p.1 ≠ slot

/-- The items before a slot, and those from it on. -/
def splitOff (key : DueSlot) (l : DueList) : DueList × DueList :=
  (l.filter fun p => p.1.Before key, l.filter fun p => ¬ p.1.Before key)

/-- Each item has a later slot than the one before it. -/
def Ascending (l : DueList) : Prop := l.Pairwise fun p q => p.1.Before q.1

/-- An item in a slot of its own joins the others. -/
theorem mem_place_iff {slot : DueSlot} {item : Expiring} {l : DueList}
    (hfresh : ∀ p ∈ l, p.1 ≠ slot) (p : DueSlot × Expiring) :
    p ∈ place slot item l ↔ p = (slot, item) ∨ p ∈ l := by
  induction l with
  | nil => simp [place]
  | cons q rest ih =>
    have hq : slot ≠ q.1 := fun e => hfresh q List.mem_cons_self e.symm
    have hrest := ih fun p hp => hfresh p (List.mem_cons_of_mem _ hp)
    unfold place
    by_cases hbefore : slot.Before q.1
    · rw [if_pos hbefore, List.mem_cons]
    · rw [if_neg hbefore, if_neg hq, List.mem_cons, hrest, List.mem_cons]
      exact or_left_comm

theorem Ascending.place {l : DueList} (h : l.Ascending) {slot : DueSlot} (item : Expiring)
    (hfresh : ∀ p ∈ l, p.1 ≠ slot) : Ascending (DueList.place slot item l) := by
  induction l with
  | nil => exact List.pairwise_singleton _ _
  | cons q rest ih =>
    obtain ⟨hhead, hrest⟩ := List.pairwise_cons.1 h
    have hq : slot ≠ q.1 := fun e => hfresh q List.mem_cons_self e.symm
    have hfresh' : ∀ p ∈ rest, p.1 ≠ slot := fun p hp => hfresh p (List.mem_cons_of_mem _ hp)
    unfold DueList.place
    by_cases hbefore : slot.Before q.1
    · rw [if_pos hbefore]
      refine List.pairwise_cons.2 ⟨?_, h⟩
      intro p hp
      obtain rfl | hp := List.mem_cons.1 hp
      · exact hbefore
      · exact hbefore.trans (hhead p hp)
    · rw [if_neg hbefore, if_neg hq]
      refine List.pairwise_cons.2 ⟨?_, ih hrest hfresh'⟩
      intro p hp
      obtain rfl | hp := (mem_place_iff hfresh' p).1 hp
      · exact DueSlot.before_of_not_before hbefore hq
      · exact hhead p hp

/-- No two items are in one slot. -/
theorem Ascending.item_unique {l : DueList} (h : l.Ascending) {slot : DueSlot}
    {item item' : Expiring} (hm : (slot, item) ∈ l) (hm' : (slot, item') ∈ l) : item = item' := by
  induction l with
  | nil => cases hm
  | cons q rest ih =>
    obtain ⟨hhead, hrest⟩ := List.pairwise_cons.1 h
    obtain hown | hin := List.mem_cons.1 hm
    · obtain hown' | hin' := List.mem_cons.1 hm'
      · exact (Prod.mk.inj (hown.trans hown'.symm)).2
      · have hbefore := hhead _ hin'
        rw [← hown] at hbefore
        exact absurd hbefore (DueSlot.Before.irrefl _)
    · obtain hown' | hin' := List.mem_cons.1 hm'
      · have hbefore := hhead _ hin
        rw [← hown'] at hbefore
        exact absurd hbefore (DueSlot.Before.irrefl _)
      · exact ih hrest hin hin'

end DueList

/-! ## Both tables -/

/-- The pending items, by their slots and with their slots. -/
structure DueTables where
  due : DueList := []
  slots : AssocMap Expiring DueSlot := .empty
  /-- The last turn given out. -/
  turns : Nat := 0
  deriving Repr, DecidableEq

namespace DueTables

/-- Takes an item out of both tables. -/
def cancel (t : DueTables) (item : Expiring) : DueTables :=
  match t.slots.get? item with
  | none => t
  | some slot => { t with due := t.due.remove slot, slots := t.slots.erase item }

/-- Puts an item into both tables, in the last slot of its time. -/
def enter (t : DueTables) (item : Expiring) (time : UInt32) : DueTables :=
  let slot : DueSlot := ⟨time, t.turns + 1⟩
  { due := t.due.place slot item, slots := t.slots.insert item slot, turns := t.turns + 1 }

/-- Sets the time of an item, in place of any that it has. -/
def set (t : DueTables) (item : Expiring) (time : UInt32) : DueTables :=
  (t.cancel item).enter item time

/-- Puts an item back, unless it has a time. -/
def requeue (t : DueTables) (item : Expiring) (time : UInt32) : DueTables :=
  if t.slots.contains item then t else t.set item time

/-- The items due at a time, and those due later. -/
def split (t : DueTables) (now : UInt32) : DueList × DueList :=
  match DueSlot.after? now with
  | some key => t.due.splitOff key
  | none => (t.due, [])

/-- The items due at a time, in order, and the tables without them. -/
def popDue (t : DueTables) (now : UInt32) : List (UInt32 × Expiring) × DueTables :=
  let (due, later) := t.split now
  (due.map fun p => (p.1.time, p.2),
    { t with due := later, slots := (due.map Prod.snd).foldl AssocMap.erase t.slots })

/-- Number of pending items. -/
def size (t : DueTables) : Nat := t.due.length

/-- The earliest time of all. -/
def nextDue (t : DueTables) : Option UInt32 := t.due.head?.map fun p => p.1.time

/-- The items stand in order, the tables are inverse to each other, and no turn is yet
to be given out. -/
structure Consistent (t : DueTables) : Prop where
  ascending : t.due.Ascending
  inverse : ∀ slot item, (slot, item) ∈ t.due ↔ t.slots.get? item = some slot
  bounded : ∀ p ∈ t.due, p.1.turn ≤ t.turns

theorem consistent_empty : Consistent {} where
  ascending := List.Pairwise.nil
  inverse _ _ := ⟨fun h => absurd h List.not_mem_nil, fun h => nomatch h⟩
  bounded _ h := absurd h List.not_mem_nil

variable {t : DueTables}

/-! ### Setting a time -/

theorem get?_cancel (t : DueTables) (item item' : Expiring) :
    (t.cancel item).slots.get? item' = if item = item' then none else t.slots.get? item' := by
  unfold cancel
  split
  next h =>
    by_cases hi : item = item'
    · rw [if_pos hi, ← hi, h]
    · rw [if_neg hi]
  next => exact AssocMap.get?_erase ..

theorem Consistent.cancel (h : t.Consistent) (item : Expiring) : (t.cancel item).Consistent := by
  have hget := get?_cancel t item
  unfold DueTables.cancel at hget ⊢
  split
  next => exact h
  next slot hslot =>
    rw [hslot] at hget
    refine ⟨h.ascending.filter _, fun slot' item' => ?_, fun p hp => h.bounded p
      (List.mem_filter.1 hp).1⟩
    simp only [DueList.remove, List.mem_filter, h.inverse, hget, decide_eq_true_eq]
    have hown := (h.inverse slot item).2 hslot
    constructor
    · rintro ⟨hs, hne⟩
      have hi : item ≠ item' := by
        rintro rfl
        exact hne (Option.some.inj (hs.symm.trans hslot))
      rwa [if_neg hi]
    · intro hs
      by_cases hi : item = item'
      · rw [if_pos hi] at hs
        cases hs
      · rw [if_neg hi] at hs
        refine ⟨hs, ?_⟩
        rintro rfl
        exact hi (h.ascending.item_unique hown ((h.inverse _ item').2 hs))

/-- The next turn is in no slot yet. -/
theorem Consistent.fresh (h : t.Consistent) (time : UInt32) :
    ∀ p ∈ t.due, p.1 ≠ ⟨time, t.turns + 1⟩ := by
  intro p hp he
  have hle := h.bounded p hp
  rw [he] at hle
  exact Nat.not_succ_le_self _ hle

theorem Consistent.enter (h : t.Consistent) {item : Expiring} (hout : t.slots.get? item = none)
    (time : UInt32) : (t.enter item time).Consistent where
  ascending := h.ascending.place item (h.fresh time)
  inverse slot item' := by
    change (slot, item') ∈ t.due.place _ item ↔ (t.slots.insert item _).get? item' = _
    rw [DueList.mem_place_iff (h.fresh time), AssocMap.get?_insert, h.inverse, Prod.mk.injEq]
    by_cases hi : item = item'
    · subst hi
      rw [if_pos rfl, hout, Option.some.injEq]
      simp [eq_comm]
    · simp [hi, Ne.symm hi]
  bounded p hp := by
    obtain rfl | hp := (DueList.mem_place_iff (h.fresh time) p).1 hp
    · exact Nat.le_refl _
    · exact Nat.le_succ_of_le (h.bounded p hp)

@[simp] theorem turns_cancel (t : DueTables) (item : Expiring) :
    (t.cancel item).turns = t.turns := by
  unfold cancel
  split <;> rfl

theorem get?_set (t : DueTables) (item item' : Expiring) (time : UInt32) :
    (t.set item time).slots.get? item' =
      if item = item' then some ⟨time, t.turns + 1⟩ else t.slots.get? item' := by
  refine (AssocMap.get?_insert ..).trans ?_
  rw [get?_cancel, turns_cancel]
  split <;> rfl

theorem Consistent.set (h : t.Consistent) (item : Expiring) (time : UInt32) :
    (t.set item time).Consistent :=
  (h.cancel item).enter (by rw [get?_cancel, if_pos rfl]) time

theorem Consistent.requeue (h : t.Consistent) (item : Expiring) (time : UInt32) :
    (t.requeue item time).Consistent := by
  unfold DueTables.requeue
  split
  · exact h
  · exact h.set item time

/-! ### Taking out what is due -/

/-- What is due is parted from what is not, also at the last time of all. -/
theorem split_eq (t : DueTables) (now : UInt32) :
    t.split now = (t.due.filter fun p => p.1.time ≤ now, t.due.filter fun p => now < p.1.time) := by
  unfold split
  split
  next key hkey =>
    simp only [DueList.splitOff, DueSlot.before_after_iff hkey, UInt32.not_le]
  next hlast =>
    have hall := DueSlot.le_of_after?_eq_none hlast
    have hdue : t.due.filter (fun p => p.1.time ≤ now) = t.due :=
      List.filter_eq_self.2 fun p _ => decide_eq_true (hall _)
    have hlater : t.due.filter (fun p => now < p.1.time) = [] :=
      List.filter_eq_nil_iff.2 fun p _ => by simpa using hall p.1.time
    rw [hdue, hlater]

theorem due_popDue (t : DueTables) (now : UInt32) :
    (t.popDue now).2.due = t.due.filter fun p => now < p.1.time :=
  congrArg Prod.snd (t.split_eq now)

theorem fst_popDue (t : DueTables) (now : UInt32) :
    (t.popDue now).1 = (t.due.filter fun p => p.1.time ≤ now).map fun p => (p.1.time, p.2) :=
  congrArg (fun parts => parts.1.map fun p => (p.1.time, p.2)) (t.split_eq now)

theorem get?_popDue (h : t.Consistent) (now : UInt32) (item : Expiring) :
    (t.popDue now).2.slots.get? item = (t.slots.get? item).filter fun slot => now < slot.time := by
  have hslots : (t.popDue now).2.slots = ((t.due.filter fun p => p.1.time ≤ now).map
      Prod.snd).foldl AssocMap.erase t.slots :=
    congrArg (fun parts => (parts.1.map Prod.snd).foldl AssocMap.erase t.slots) (t.split_eq now)
  have hdue : item ∈ (t.due.filter fun p => p.1.time ≤ now).map Prod.snd ↔
      ∃ slot, t.slots.get? item = some slot ∧ slot.time ≤ now := by
    simp [List.mem_map, List.mem_filter, h.inverse]
  rw [hslots, AssocMap.get?_foldl_erase]
  cases hslot : t.slots.get? item with
  | none =>
    rw [hslot] at hdue
    rw [if_neg fun hm => by simpa using hdue.1 hm]
    rfl
  | some slot =>
    rw [hslot] at hdue
    by_cases hlate : slot.time ≤ now
    · rw [if_pos (hdue.2 ⟨slot, rfl, hlate⟩)]
      simp [Option.filter, UInt32.not_lt.2 hlate]
    · rw [if_neg fun hm => hlate (by simpa using hdue.1 hm)]
      simp [Option.filter, UInt32.not_le.1 hlate]

theorem Consistent.popDue (h : t.Consistent) (now : UInt32) : (t.popDue now).2.Consistent where
  ascending := by
    rw [due_popDue]
    exact h.ascending.filter _
  inverse slot item := by
    rw [due_popDue, get?_popDue h, List.mem_filter, h.inverse, Option.filter_eq_some_iff]
  bounded p hp := by
    rw [due_popDue] at hp
    exact h.bounded p (List.mem_filter.1 hp).1

end DueTables

/-! ## Schedules -/

/-- The pending items. -/
structure Schedule extends DueTables where
  consistent : toDueTables.Consistent
  deriving Repr, DecidableEq

namespace Schedule

def empty : Schedule := ⟨{}, DueTables.consistent_empty⟩

instance : Inhabited Schedule := ⟨empty⟩

/-- Number of pending items. -/
def size (s : Schedule) : Nat := s.toDueTables.size

/-- When an item is due. -/
def time? (s : Schedule) (item : Expiring) : Option UInt32 := (s.slots.get? item).map DueSlot.time

/-- Sets the time of an item. -/
def set (s : Schedule) (item : Expiring) (time : UInt32) : Schedule :=
  ⟨s.toDueTables.set item time, s.consistent.set item time⟩

/-- Puts an item back, unless it has a time. -/
def requeue (s : Schedule) (item : Expiring) (time : UInt32) : Schedule :=
  ⟨s.toDueTables.requeue item time, s.consistent.requeue item time⟩

/-- The items due at a time, in order, and the schedule without them. -/
def popDue (s : Schedule) (now : UInt32) : List (UInt32 × Expiring) × Schedule :=
  ((s.toDueTables.popDue now).1, ⟨(s.toDueTables.popDue now).2, s.consistent.popDue now⟩)

/-- The earliest time of all. -/
def nextDue (s : Schedule) : Option UInt32 := s.toDueTables.nextDue

theorem time?_set (s : Schedule) (item item' : Expiring) (time : UInt32) :
    (s.set item time).time? item' = if item = item' then some time else s.time? item' := by
  simp only [time?, set, DueTables.get?_set]
  split <;> rfl

theorem requeue_of_contains {s : Schedule} {item : Expiring}
    (h : s.slots.contains item = true) (time : UInt32) : s.requeue item time = s := by
  have htables : s.toDueTables.requeue item time = s.toDueTables := if_pos h
  cases s
  simp only [requeue, htables]

theorem requeue_of_not_contains {s : Schedule} {item : Expiring}
    (h : ¬ s.slots.contains item = true) (time : UInt32) :
    s.requeue item time = s.set item time := by
  have htables : s.toDueTables.requeue item time = s.toDueTables.set item time := if_neg h
  simp only [requeue, set, htables]

theorem time?_requeue (s : Schedule) (item : Expiring) (time : UInt32) :
    (s.requeue item time).time? item = some ((s.time? item).getD time) := by
  by_cases h : s.slots.contains item = true
  · rw [requeue_of_contains h]
    obtain ⟨slot, e⟩ := Option.isSome_iff_exists.1 h
    simp [time?, e]
  · rw [requeue_of_not_contains h]
    have e : s.time? item = none := by simpa [time?, AssocMap.contains] using h
    rw [time?_set, e]
    simp

end Schedule

end Arcbase
