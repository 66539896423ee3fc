import Arcbase.Proofs.AssocMap
import Arcbase.Schedule
set_option autoImplicit false

/-!
# What falls due and what is put back

Taking out what is due splits the times of a schedule: an item is taken out with its
time if that has come, and keeps it otherwise (`mem_popDue_iff`, `time?_popDue`).
Putting items back gives a time only to those that have none (`time?_requeueAll`).

A series of changes of the tables is entered into a *ledger* as well: the plain map
from items to their times, with the change that last set each of them.  The tables
are *in step* with the ledger of their series (`InStep`): they are consistent, give
every item the time of the map, and within one time the turns go up as the changes
did.  What the tables show is then told by the ledger alone (`Represents`).
-/

namespace Arcbase

/-- Every pending item is in one slot only. -/
theorem DueTables.Consistent.nodup_items {t : DueTables} (h : t.Consistent) :
    (t.due.map Prod.snd).Nodup := by
  rw [List.Nodup, List.pairwise_map]
  refine h.ascending.imp_of_mem ?_
  intro p q hp hq hbefore he
  have hslots : p.1 = q.1 := by
    have hown := (h.inverse p.1 p.2).1 hp
    rw [he, (h.inverse q.1 q.2).1 hq] at hown
    exact (Option.some.inj hown).symm
  rw [hslots] at hbefore
  exact DueSlot.Before.irrefl _ hbefore

namespace Schedule

variable {s : Schedule} {now time : UInt32} {item : Expiring}

theorem mem_popDue_iff :
    (time, item) ∈ (s.popDue now).1 ↔ s.time? item = some time ∧ time ≤ now := by
  change (time, item) ∈ (s.toDueTables.popDue now).1 ↔ _
  rw [DueTables.fst_popDue, List.mem_map, time?, Option.map_eq_some_iff]
  simp only [List.mem_filter, decide_eq_true_eq]
  constructor
  · rintro ⟨⟨slot, item'⟩, ⟨hm, hdue⟩, he⟩
    obtain ⟨rfl, rfl⟩ := Prod.mk.inj he
    exact ⟨⟨slot, (s.consistent.inverse slot item').1 hm, rfl⟩, hdue⟩
  · rintro ⟨⟨slot, hs, rfl⟩, hdue⟩
    exact ⟨(slot, item), ⟨(s.consistent.inverse slot item).2 hs, hdue⟩, rfl⟩

/-- What is not due keeps its time. -/
theorem time?_popDue (s : Schedule) (now : UInt32) (item : Expiring) :
    (s.popDue now).2.time? item = (s.time? item).filter (now < ·) := by
  change ((s.toDueTables.popDue now).2.slots.get? item).map DueSlot.time = _
  rw [DueTables.get?_popDue s.consistent, time?, Option.filter_map]
  rfl

/-- No item is taken out twice. -/
theorem nodup_popDue (s : Schedule) (now : UInt32) : ((s.popDue now).1.map Prod.snd).Nodup := by
  change ((s.toDueTables.popDue now).1.map Prod.snd).Nodup
  rw [DueTables.fst_popDue, List.map_map]
  exact s.consistent.nodup_items.sublist (List.filter_sublist.map Prod.snd)

theorem time?_eq_none_of_size (h : s.size = 0) (item : Expiring) : s.time? item = none := by
  have hnil : s.due = [] := List.length_eq_zero_iff.1 h
  rw [time?, Option.map_eq_none_iff, Option.eq_none_iff_forall_ne_some]
  intro slot hslot
  have hm := (s.consistent.inverse slot item).2 hslot
  rw [hnil] at hm
  exact List.not_mem_nil hm

/-! ## Putting back -/

/-- The first time that a list gives for an item. -/
def timeIn? (l : List (UInt32 × Expiring)) (item : Expiring) : Option UInt32 :=
  (l.find? fun p => p.2 = item).map Prod.fst

theorem timeIn?_cons (p : UInt32 × Expiring) (l : List (UInt32 × Expiring)) (item : Expiring) :
    timeIn? (p :: l) item = if p.2 = item then some p.1 else timeIn? l item := by
  rw [timeIn?, List.find?_cons]
  by_cases h : p.2 = item <;> simp [h, timeIn?]

theorem mem_of_timeIn? {l : List (UInt32 × Expiring)} (h : timeIn? l item = some time) :
    (time, item) ∈ l := by
  obtain ⟨⟨time', item'⟩, hf, rfl⟩ := Option.map_eq_some_iff.1 h
  have hitem : item' = item := by simpa using List.find?_some hf
  exact hitem ▸ List.mem_of_find?_eq_some hf

theorem timeIn?_of_mem {l : List (UInt32 × Expiring)} (hn : (l.map Prod.snd).Nodup)
    (h : (time, item) ∈ l) : timeIn? l item = some time := by
  induction l with
  | nil => exact absurd h List.not_mem_nil
  | cons p rest ih =>
    obtain ⟨hfresh, hrest⟩ := List.nodup_cons.1 hn
    rw [timeIn?_cons]
    rcases List.mem_cons.1 h with rfl | hm
    · rw [if_pos rfl]
    · have hne : p.2 ≠ item := by
        rintro rfl
        exact hfresh (List.mem_map.2 ⟨_, hm, rfl⟩)
      rw [if_neg hne, ih hrest hm]

/-- Puts several items back. -/
def requeueAll (s : Schedule) (again : List (UInt32 × Expiring)) : Schedule :=
  again.foldl (fun q (time, item) => q.requeue item time) s

theorem time?_requeue_ite (s : Schedule) (item item' : Expiring) (time : UInt32) :
    (s.requeue item time).time? item' =
      (s.time? item').or (if item = item' then some time else none) := by
  by_cases hi : item = item'
  · subst hi
    rw [time?_requeue, if_pos rfl]
    cases s.time? item <;> rfl
  · rw [if_neg hi, Option.or_none]
    by_cases hin : s.slots.contains item = true
    · rw [requeue_of_contains hin]
    · rw [requeue_of_not_contains hin, time?_set, if_neg hi]

theorem time?_requeueAll (s : Schedule) (again : List (UInt32 × Expiring)) (item : Expiring) :
    (s.requeueAll again).time? item = (s.time? item).or (timeIn? again item) := by
  induction again generalizing s with
  | nil => exact (Option.or_none ..).symm
  | cons p rest ih =>
    refine (ih (s.requeue p.2 p.1)).trans ?_
    rw [time?_requeue_ite, timeIn?_cons, Option.or_assoc]
    by_cases hp : p.2 = item <;> simp [hp]

end Schedule

/-! ## Ledgers -/

namespace AssocMap

variable {α β : Type}

/-- The entries that satisfy a condition. -/
def keep (m : AssocMap α β) (p : α → β → Bool) : AssocMap α β :=
  ⟨m.entries.filter fun e => p e.1 e.2, m.nodup.sublist (List.filter_sublist.map Prod.fst)⟩

variable [DecidableEq α]

theorem get?_keep (m : AssocMap α β) (p : α → β → Bool) (k : α) :
    (m.keep p).get? k = (m.get? k).filter (p k) := by
  ext v
  rw [← mem_entries_iff, Option.filter_eq_some_iff, ← mem_entries_iff]
  exact List.mem_filter

theorem mem_keys_iff {m : AssocMap α β} {k : α} : k ∈ m.keys ↔ ∃ v, m.get? k = some v := by
  simp only [keys, List.mem_map, ← mem_entries_iff]
  constructor
  · rintro ⟨⟨k', v⟩, hm, rfl⟩
    exact ⟨v, hm⟩
  · rintro ⟨v, hm⟩
    exact ⟨(k, v), hm, rfl⟩

end AssocMap

/-- One change of the expiration tables. -/
inductive DueChange where
  | set (item : Expiring) (time : UInt32)
  | requeue (item : Expiring) (time : UInt32)
  | popDue (now : UInt32)

/-- The times of the pending items, the number of changes so far, and for every pending
item which of them set its time. -/
structure DueLedger where
  times : AssocMap Expiring UInt32
  since : Expiring → Nat
  changes : Nat

namespace DueLedger

def empty : DueLedger := { times := .empty, since := fun _ => 0, changes := 0 }

/-- Gives an item a time, in place of any that it has. -/
def set (l : DueLedger) (item : Expiring) (time : UInt32) : DueLedger :=
  { times := l.times.insert item time
    since := fun x => if x = item then l.changes else l.since x
    changes := l.changes + 1 }

/-- An item that is put back keeps a time that it has; what is due leaves the map. -/
def enter (l : DueLedger) : DueChange → DueLedger
  | .set item time => l.set item time
  | .requeue item time =>
    if l.times.contains item then { l with changes := l.changes + 1 } else l.set item time
  | .popDue now =>
    { l with times := l.times.keep fun _ time => now < time, changes := l.changes + 1 }

/-- The ledger of a series of changes. -/
def replay (series : List DueChange) : DueLedger := series.foldl enter empty

end DueLedger

namespace DueTables

/-- The tables after a change. -/
def change (t : DueTables) : DueChange → DueTables
  | .set item time => t.set item time
  | .requeue item time => t.requeue item time
  | .popDue now => (t.popDue now).2

/-- The tables after a series of changes. -/
def replay (series : List DueChange) : DueTables := series.foldl change {}

/-- What the tables show is what the ledger says. -/
structure Represents (t : DueTables) (l : DueLedger) : Prop where
  /-- the tables are inverse to each other -/
  inverse : ∀ slot item, (slot, item) ∈ t.due ↔ t.slots.get? item = some slot
  nodup_slots : (t.due.map Prod.fst).Nodup
  nodup_items : (t.due.map Prod.snd).Nodup
  times : ∀ item, (t.slots.get? item).map DueSlot.time = l.times.get? item
  size : t.size = l.times.size
  nextDue : t.nextDue = l.times.values.min?
  /-- exactly what is due is taken out, with its time -/
  popped : ∀ now time item, (time, item) ∈ (t.popDue now).1 ↔
    l.times.get? item = some time ∧ time ≤ now
  popped_once : ∀ now, ((t.popDue now).1.map Prod.snd).Nodup
  /-- in the order of the times, and at one time in that in which they were set -/
  popped_order : ∀ now, (t.popDue now).1.Pairwise fun a b =>
    a.1 < b.1 ∨ a.1 = b.1 ∧ l.since a.2 < l.since b.2
  /-- and leaves both tables -/
  left_due : ∀ now, (t.popDue now).2.due = t.due.filter fun p => now < p.1.time
  left_slots : ∀ now item, (t.popDue now).2.slots.get? item =
    (t.slots.get? item).filter fun slot => now < slot.time

/-! ### One change -/

/-- Consistent tables with the times of the ledger, in which a later turn means that the
time was set later. -/
structure InStep (t : DueTables) (l : DueLedger) : Prop where
  consistent : t.Consistent
  times : ∀ item, (t.slots.get? item).map DueSlot.time = l.times.get? item
  past : ∀ item slot, t.slots.get? item = some slot → l.since item < l.changes
  turns : ∀ a b slot slot', t.slots.get? a = some slot → t.slots.get? b = some slot' →
    slot.turn < slot'.turn → l.since a < l.since b

theorem inStep_empty : InStep {} .empty where
  consistent := consistent_empty
  times _ := rfl
  past _ _ h := nomatch h
  turns _ _ _ _ h := nomatch h

variable {t : DueTables} {l : DueLedger}

/-- A change that is entered without effect. -/
theorem InStep.wait (h : InStep t l) : InStep t { l with changes := l.changes + 1 } where
  consistent := h.consistent
  times := h.times
  past item slot hs := Nat.lt_succ_of_lt (h.past item slot hs)
  turns := h.turns

theorem Consistent.turn_le (h : t.Consistent) {item : Expiring} {slot : DueSlot}
    (hs : t.slots.get? item = some slot) : slot.turn ≤ t.turns :=
  h.bounded (slot, item) ((h.inverse slot item).2 hs)

theorem InStep.set (h : InStep t l) (item : Expiring) (time : UInt32) :
    InStep (t.set item time) (l.set item time) where
  consistent := h.consistent.set item time
  times item' := by
    rw [get?_set, DueLedger.set, AssocMap.get?_insert, ← h.times]
    split <;> rfl
  past item' slot hs := by
    rw [get?_set] at hs
    simp only [DueLedger.set]
    by_cases hi : item = item'
    · rw [if_pos hi.symm]
      exact Nat.lt_succ_self _
    · rw [if_neg hi] at hs
      rw [if_neg (Ne.symm hi)]
      exact Nat.lt_succ_of_lt (h.past item' slot hs)
  turns a b slot slot' ha hb hlt := by
    rw [get?_set] at ha hb
    simp only [DueLedger.set]
    by_cases hb' : item = b
    · -- the item that has just been set comes last
      subst hb'
      rw [if_pos rfl] at hb ⊢
      cases hb
      by_cases ha' : item = a
      · rw [if_pos ha'] at ha
        cases ha
        exact absurd hlt (Nat.lt_irrefl _)
      · rw [if_neg ha'] at ha
        rw [if_neg (Ne.symm ha')]
        exact h.past a slot ha
    · rw [if_neg hb'] at hb
      rw [if_neg (Ne.symm hb')]
      by_cases ha' : item = a
      · rw [if_pos ha'] at ha
        cases ha
        have hle := h.consistent.turn_le hb
        exact absurd (Nat.lt_of_lt_of_le hlt hle) (Nat.not_lt.2 (Nat.le_succ _))
      · rw [if_neg ha'] at ha
        rw [if_neg (Ne.symm ha')]
        exact h.turns a b slot slot' ha hb hlt

theorem InStep.contains_iff (h : InStep t l) (item : Expiring) :
    t.slots.contains item = l.times.contains item := by
  rw [AssocMap.contains, AssocMap.contains, ← h.times, Option.isSome_map]

theorem InStep.requeue (h : InStep t l) (item : Expiring) (time : UInt32) :
    InStep (t.requeue item time) (l.enter (.requeue item time)) := by
  simp only [DueTables.requeue, DueLedger.enter, h.contains_iff]
  split
  · exact h.wait
  · exact h.set item time

theorem InStep.popDue (h : InStep t l) (now : UInt32) :
    InStep (t.popDue now).2 (l.enter (.popDue now)) := by
  have hkept : ∀ item slot, (t.popDue now).2.slots.get? item = some slot →
      t.slots.get? item = some slot := by
    intro item slot hs
    rw [get?_popDue h.consistent] at hs
    exact (Option.filter_eq_some_iff.1 hs).1
  constructor
  · exact h.consistent.popDue now
  · intro item
    rw [get?_popDue h.consistent, DueLedger.enter, AssocMap.get?_keep, ← h.times,
      Option.filter_map]
    rfl
  · intro item slot hs
    exact Nat.lt_succ_of_lt (h.past item slot (hkept item slot hs))
  · intro a b slot slot' ha hb
    exact h.turns a b slot slot' (hkept a slot ha) (hkept b slot' hb)

theorem InStep.change (h : InStep t l) (c : DueChange) : InStep (t.change c) (l.enter c) := by
  cases c with
  | set item time => exact h.set item time
  | requeue item time => exact h.requeue item time
  | popDue now => exact h.popDue now

/-! ### A series of changes -/

theorem InStep.foldl (h : InStep t l) (series : List DueChange) :
    InStep (series.foldl DueTables.change t) (series.foldl DueLedger.enter l) := by
  induction series generalizing t l with
  | nil => exact h
  | cons c rest ih => exact ih (h.change c)

theorem inStep_replay (series : List DueChange) : InStep (replay series) (.replay series) :=
  inStep_empty.foldl series

/-! ### What the tables show -/

theorem InStep.time_iff (h : InStep t l) {item : Expiring} {time : UInt32} :
    l.times.get? item = some time ↔ ∃ slot, (slot, item) ∈ t.due ∧ slot.time = time := by
  rw [← h.times, Option.map_eq_some_iff]
  simp only [h.consistent.inverse]

theorem Consistent.nodup_slots (h : t.Consistent) : (t.due.map Prod.fst).Nodup := by
  rw [List.Nodup, List.pairwise_map]
  refine h.ascending.imp ?_
  intro p q hbefore he
  rw [he] at hbefore
  exact DueSlot.Before.irrefl _ hbefore

theorem InStep.items_perm (h : InStep t l) : (t.due.map Prod.snd).Perm l.times.keys := by
  refine (List.perm_ext_iff_of_nodup h.consistent.nodup_items l.times.nodup).2 ?_
  intro item
  rw [List.mem_map]
  refine Iff.trans ?_ AssocMap.mem_keys_iff.symm
  simp only [h.time_iff]
  constructor
  · rintro ⟨⟨slot, item⟩, hm, rfl⟩
    exact ⟨slot.time, slot, hm, rfl⟩
  · rintro ⟨_, slot, hm, _⟩
    exact ⟨(slot, item), hm, rfl⟩

theorem InStep.size (h : InStep t l) : t.size = l.times.size := by
  have hlength := h.items_perm.length_eq
  rwa [AssocMap.keys, List.length_map, List.length_map] at hlength

/-- The first item in order has the least of all times. -/
theorem InStep.nextDue (h : InStep t l) : t.nextDue = l.times.values.min? := by
  have hall : ∀ time, time ∈ l.times.values ↔ ∃ p ∈ t.due, p.1.time = time := by
    intro time
    rw [AssocMap.mem_values_iff]
    simp only [h.time_iff]
    constructor
    · rintro ⟨item, slot, hm, he⟩
      exact ⟨(slot, item), hm, he⟩
    · rintro ⟨⟨slot, item⟩, hm, he⟩
      exact ⟨item, slot, hm, he⟩
  have hsorted := h.consistent.ascending
  unfold DueTables.nextDue
  cases hdue : t.due with
  | nil =>
    have hnone : l.times.values = [] := by
      refine List.eq_nil_iff_forall_not_mem.2 fun time hm => ?_
      obtain ⟨p, hp, _⟩ := (hall time).1 hm
      rw [hdue] at hp
      exact List.not_mem_nil hp
    rw [hnone]
    rfl
  | cons first rest =>
    rw [hdue] at hall hsorted
    refine (List.min?_eq_some_iff.2 ⟨(hall _).2 ⟨first, List.mem_cons_self, rfl⟩, ?_⟩).symm
    intro time hm
    obtain ⟨p, hp, rfl⟩ := (hall time).1 hm
    obtain rfl | hp := List.mem_cons.1 hp
    · exact UInt32.le_refl _
    · obtain hlt | ⟨he, _⟩ := (List.pairwise_cons.1 hsorted).1 p hp
      · exact UInt32.le_of_lt hlt
      · exact UInt32.le_of_eq he

theorem InStep.popped (h : InStep t l) (now time : UInt32) (item : Expiring) :
    (time, item) ∈ (t.popDue now).1 ↔ l.times.get? item = some time ∧ time ≤ now := by
  rw [fst_popDue, List.mem_map, h.time_iff]
  simp only [List.mem_filter, decide_eq_true_eq]
  constructor
  · rintro ⟨⟨slot, item⟩, ⟨hm, hle⟩, he⟩
    obtain ⟨rfl, rfl⟩ := Prod.mk.inj he
    exact ⟨⟨slot, hm, rfl⟩, hle⟩
  · rintro ⟨⟨slot, hm, rfl⟩, hle⟩
    exact ⟨(slot, item), ⟨hm, hle⟩, rfl⟩

theorem InStep.popped_order (h : InStep t l) (now : UInt32) :
    (t.popDue now).1.Pairwise fun a b => a.1 < b.1 ∨ a.1 = b.1 ∧ l.since a.2 < l.since b.2 := by
  rw [fst_popDue, List.pairwise_map]
  have hdue := h.consistent.ascending.filter fun p => p.1.time ≤ now
  refine hdue.imp_of_mem ?_
  intro p q hp hq hbefore
  refine hbefore.imp id fun ⟨htime, hturn⟩ => ⟨htime, ?_⟩
  have hp' := (h.consistent.inverse p.1 p.2).1 (List.mem_filter.1 hp).1
  have hq' := (h.consistent.inverse q.1 q.2).1 (List.mem_filter.1 hq).1
  exact h.turns p.2 q.2 p.1 q.1 hp' hq' hturn

theorem InStep.represents (h : InStep t l) : t.Represents l where
  inverse := h.consistent.inverse
  nodup_slots := h.consistent.nodup_slots
  nodup_items := h.consistent.nodup_items
  times := h.times
  size := h.size
  nextDue := h.nextDue
  popped := h.popped
  popped_once now := by
    rw [fst_popDue, List.map_map]
    exact h.consistent.nodup_items.sublist (List.filter_sublist.map Prod.snd)
  popped_order := h.popped_order
  left_due := t.due_popDue
  left_slots now := get?_popDue h.consistent now

/-- After every series of changes the tables show the map of times of its ledger. -/
theorem tables_represent_ledger (series : List DueChange) :
    (replay series).Represents (.replay series) :=
  (inStep_replay series).represents

end DueTables

end Arcbase
