import Arcbase.Proofs.Arc.Index
import Mathlib.Data.Finset.Card
set_option autoImplicit false

/-!
# Arc indexes as finite maps

The *ledger* of a series of insertions and removals is the plain map from slots to
arcs that the same series leaves, with the edit that filled each slot.  An index
and the ledger of its series are *in step* (`InStep`), and every observation of the
index is then one of the map (`Represents`): its form and the order of its arcs
depend on the ledger alone.
-/

namespace Arcbase

/-- A slot toward a neighbor. -/
abbrev ArcPlace : Type := VertexKey × LabelCode × ArcKind

/-- The place of an arc toward a neighbor. -/
def StoredArc.place (neighbor : VertexKey) (a : StoredArc) : ArcPlace := (neighbor, a.slot)

/-- One change of an index. -/
inductive ArcEdit where
  | insert (neighbor : VertexKey) (arc : StoredArc)
  | remove (neighbor : VertexKey) (relationship : LabelCode) (kind : ArcKind)

namespace ArcEdit

/-- The place that an edit is about. -/
def place : ArcEdit → ArcPlace
  | insert neighbor arc => arc.place neighbor
  | remove neighbor relationship kind => (neighbor, relationship, kind)

/-- What an edit gives back, and the index after it. -/
def run : ArcEdit → ArcIndex → Option StoredArc × ArcIndex
  | insert neighbor arc, i => i.insert neighbor arc
  | remove neighbor relationship kind, i => i.remove neighbor relationship kind

end ArcEdit

/-- The arcs by their places, the number of edits so far, and for every filled place
which of them filled it. -/
structure ArcLedger where
  arcs : AssocMap ArcPlace StoredArc
  since : ArcPlace → Nat
  edits : Nat

namespace ArcLedger

def empty : ArcLedger := { arcs := .empty, since := fun _ => 0, edits := 0 }

/-- An insertion overwrites the entry at its place, or fills it from now on. -/
def enter (l : ArcLedger) : ArcEdit → ArcLedger
  | .insert neighbor arc =>
    let place := arc.place neighbor
    { arcs := l.arcs.insert place arc
      since := fun p => if p = place ∧ l.arcs.contains p = false then l.edits else l.since p
      edits := l.edits + 1 }
  | .remove neighbor relationship kind =>
    { l with arcs := l.arcs.erase (neighbor, relationship, kind), edits := l.edits + 1 }

/-- The ledger of a series of edits. -/
def replay (series : List ArcEdit) : ArcLedger := series.foldl enter empty

end ArcLedger

namespace ArcIndex

/-- The index after a series of edits. -/
def replay (series : List ArcEdit) : ArcIndex := series.foldl (fun i e => (e.run i).2) empty

/-- The simplest form for a number of arcs. -/
def tierFor : Nat → Tier
  | 0 => .empty
  | 1 => .single
  | _ + 2 => .multi

/-- What an index shows is what its ledger says. -/
structure Represents (i : ArcIndex) (l : ArcLedger) : Prop where
  get? : ∀ n r k, i.get? n r k = l.arcs.get? (n, r, k)
  contains : ∀ n, i.contains n = true ↔ ∃ r k, l.arcs.contains (n, r, k) = true
  arcsTo : ∀ n, (i.arcsTo n).Perm ((l.arcs.entries.filter fun e => e.1.1 = n).map Prod.snd)
  /-- the arcs toward one neighbor come in the order in which their places were filled -/
  ordered : ∀ n, (i.arcsTo n).Pairwise fun a b => l.since (a.place n) < l.since (b.place n)
  size : i.size = l.arcs.size
  isEmpty : i.isEmpty = true ↔ l.arcs.entries = []
  neighborCount : i.neighborCount = (l.arcs.keys.map Prod.fst).toFinset.card
  entries : (i.entries.map fun e => (e.2.place e.1, e.2)).Perm l.arcs.entries
  /-- an enumeration that is carried on comes to these entries, and to no others -/
  iter : ∀ count, i.iter.take count = i.entries.take count
  matching : ∀ f : ArcFilter, ((i.matching f).map fun e => (e.2.place e.1, e.2)).Perm
    (l.arcs.entries.filter fun e => f.test e.2)
  countMatching : ∀ f : ArcFilter, i.countMatching f = l.arcs.entries.countP fun e => f.test e.2
  tier : i.tier = tierFor l.arcs.size
  /-- a map of lists knows its size, and has no empty list -/
  multi : ∀ arcs size, i = .multi arcs size →
    size = (arcs.values.map List.length).sum ∧ ∀ n list, arcs.get? n = some list → list ≠ []

/-! ### One edit -/

/-- An index in its simplest form whose slots hold what the ledger says, with the arcs
toward a neighbor in the order in which their places were filled. -/
structure InStep (i : ArcIndex) (l : ArcLedger) : Prop where
  valid : i.Valid
  get? : ∀ n r k, i.get? n r k = l.arcs.get? (n, r, k)
  past : ∀ p, l.arcs.contains p = true → l.since p < l.edits
  ordered : ∀ n,
    ((i.arcsTo n).map StoredArc.slot).Pairwise fun s t => l.since (n, s) < l.since (n, t)

theorem inStep_empty : InStep .empty .empty where
  valid := valid_empty
  get? _ _ _ := rfl
  past _ h := nomatch h
  ordered _ := List.Pairwise.nil

theorem mem_slots_iff {i : ArcIndex} {l : ArcLedger} (h : InStep i l) (n : VertexKey)
    (s : LabelCode × ArcKind) :
    s ∈ (i.arcsTo n).map StoredArc.slot ↔ l.arcs.contains (n, s) = true := by
  obtain ⟨r, k⟩ := s
  rw [AssocMap.contains_iff, List.mem_map]
  constructor
  · rintro ⟨a, ha, hs⟩
    refine ⟨a, ?_⟩
    obtain ⟨rfl, rfl⟩ := Prod.mk.inj hs
    rw [← h.get?]
    exact (mem_arcsTo_iff h.valid n a).1 ha
  · rintro ⟨a, ha⟩
    rw [← h.get?] at ha
    obtain ⟨hm, hr, hk⟩ := get?_slot ha
    exact ⟨a, hm, Prod.ext hr hk⟩

/-- A place that is filled stays filled since then. -/
theorem InStep.since_insert {i : ArcIndex} {l : ArcLedger} (h : InStep i l) (n : VertexKey)
    (arc : StoredArc) {m : VertexKey} {s : LabelCode × ArcKind}
    (hs : s ∈ (i.arcsTo m).map StoredArc.slot) :
    (l.enter (.insert n arc)).since (m, s) = l.since (m, s) := by
  have hin := (mem_slots_iff h m s).1 hs
  refine if_neg fun hnew => ?_
  rw [hin] at hnew
  cases hnew.2

/-- An arc on a new place comes behind the others of its neighbor. -/
theorem InStep.ordered_insert {i : ArcIndex} {l : ArcLedger} (h : InStep i l) (n : VertexKey)
    (arc : StoredArc) (m : VertexKey) :
    (((i.insert n arc).2.arcsTo m).map StoredArc.slot).Pairwise fun s t =>
      (l.enter (.insert n arc)).since (m, s) < (l.enter (.insert n arc)).since (m, t) := by
  have hold : ∀ m, ((i.arcsTo m).map StoredArc.slot).Pairwise fun s t =>
      (l.enter (.insert n arc)).since (m, s) < (l.enter (.insert n arc)).since (m, t) := by
    intro m
    refine (h.ordered m).imp_of_mem fun hs ht hlt => ?_
    rwa [h.since_insert n arc hs, h.since_insert n arc ht]
  rw [arcsTo_insert]
  by_cases hm : n = m
  · subst hm
    rw [if_pos rfl, Slots.map_slot_put]
    by_cases hin : arc.slot ∈ (i.arcsTo n).map StoredArc.slot
    · rw [if_pos hin]
      exact hold n
    · rw [if_neg hin]
      refine List.pairwise_append.2 ⟨hold n, List.pairwise_singleton _ _, ?_⟩
      intro s hs t ht
      rw [List.mem_singleton] at ht
      subst ht
      have hout : l.arcs.contains (n, arc.slot) = false := by
        rwa [mem_slots_iff h, Bool.not_eq_true] at hin
      have hnow : (l.enter (.insert n arc)).since (n, arc.slot) = l.edits := if_pos ⟨rfl, hout⟩
      rw [h.since_insert n arc hs, hnow]
      exact h.past _ ((mem_slots_iff h n s).1 hs)
  · rw [if_neg hm]
    exact hold m

theorem InStep.insert {i : ArcIndex} {l : ArcLedger} (h : InStep i l) (n : VertexKey)
    (arc : StoredArc) : InStep (i.insert n arc).2 (l.enter (.insert n arc)) where
  valid := valid_insert h.valid n arc
  get? m r k := by
    rw [get?_insert, ArcLedger.enter, AssocMap.get?_insert, h.get?]
    simp only [StoredArc.place, Prod.mk.injEq, Slots.inSlot_iff_slot]
  past p hp := by
    simp only [ArcLedger.enter] at hp ⊢
    by_cases hnew : p = arc.place n ∧ l.arcs.contains p = false
    · rw [if_pos hnew]
      exact Nat.lt_succ_self _
    · rw [if_neg hnew]
      refine Nat.lt_succ_of_lt (h.past p ?_)
      by_contra hout
      rw [Bool.not_eq_true] at hout
      have hne : ¬ arc.place n = p := fun e => hnew ⟨e.symm, hout⟩
      rw [AssocMap.contains, AssocMap.get?_insert, if_neg hne] at hp
      rw [AssocMap.contains] at hout
      rw [hout] at hp
      cases hp
  ordered := h.ordered_insert n arc

theorem InStep.remove {i : ArcIndex} {l : ArcLedger} (h : InStep i l) (n : VertexKey)
    (r : LabelCode) (k : ArcKind) : InStep (i.remove n r k).2 (l.enter (.remove n r k)) where
  valid := valid_remove h.valid n r k
  get? n' r' k' := by
    rw [get?_remove h.valid, ArcLedger.enter, AssocMap.get?_erase, h.get?]
    simp only [Prod.mk.injEq]
  past p hp := by
    refine Nat.lt_succ_of_lt (h.past p ?_)
    simp only [ArcLedger.enter, AssocMap.contains, AssocMap.get?_erase] at hp
    split at hp
    · cases hp
    · exact hp
  ordered m := by
    rw [arcsTo_remove h.valid]
    split
    next hm =>
      subst hm
      exact (h.ordered n).sublist (List.Sublist.map _ List.eraseP_sublist)
    next => exact h.ordered m

theorem InStep.edit {i : ArcIndex} {l : ArcLedger} (h : InStep i l) (e : ArcEdit) :
    InStep (e.run i).2 (l.enter e) := by
  cases e with
  | insert n arc => exact h.insert n arc
  | remove n r k => exact h.remove n r k

theorem InStep.foldl {i : ArcIndex} {l : ArcLedger} (h : InStep i l) (series : List ArcEdit) :
    InStep (series.foldl (fun i e => (e.run i).2) i) (series.foldl ArcLedger.enter l) := by
  induction series generalizing i l with
  | nil => exact h
  | cons e rest ih => exact ih (h.edit e)

theorem inStep_replay (series : List ArcEdit) : InStep (replay series) (.replay series) :=
  inStep_empty.foldl series

/-! ### What an index shows -/

section

variable {i : ArcIndex} {l : ArcLedger}

theorem InStep.mem_ledger_iff (h : InStep i l) (n : VertexKey) (a : StoredArc) :
    (a.place n, a) ∈ l.arcs.entries ↔ (n, a) ∈ i.entries := by
  rw [AssocMap.mem_entries_iff, mem_entries_iff, mem_arcsTo_iff h.valid, h.get?]
  rfl

/-- Every entry of the ledger stands at the place of its arc. -/
theorem InStep.place_eq (h : InStep i l) {p : ArcPlace} {a : StoredArc}
    (hp : (p, a) ∈ l.arcs.entries) : p = a.place p.1 := by
  obtain ⟨n, r, k⟩ := p
  rw [AssocMap.mem_entries_iff, ← h.get?] at hp
  obtain ⟨_, rfl, rfl⟩ := get?_slot hp
  rfl

theorem injective_place :
    Function.Injective fun e : VertexKey × StoredArc => (e.2.place e.1, e.2) := by
  rintro ⟨n, a⟩ ⟨n', a'⟩ he
  simp only [Prod.mk.injEq, StoredArc.place] at he
  obtain ⟨⟨rfl, _⟩, rfl⟩ := he
  rfl

theorem InStep.entries (h : InStep i l) :
    (i.entries.map fun e => (e.2.place e.1, e.2)).Perm l.arcs.entries := by
  refine (List.perm_ext_iff_of_nodup ((nodup_entries h.valid).map injective_place)
    l.arcs.nodup_entries).2 ?_
  rintro ⟨p, a⟩
  rw [List.mem_map]
  constructor
  · rintro ⟨⟨n, b⟩, hb, he⟩
    obtain ⟨rfl, rfl⟩ := Prod.mk.inj he
    exact (h.mem_ledger_iff n b).2 hb
  · intro hp
    have hplace := h.place_eq hp
    rw [hplace] at hp
    exact ⟨(p.1, a), (h.mem_ledger_iff p.1 a).1 hp, Prod.ext hplace.symm rfl⟩

theorem InStep.matching (h : InStep i l) (f : ArcFilter) :
    ((i.matching f).map fun e => (e.2.place e.1, e.2)).Perm
      (l.arcs.entries.filter fun e => f.test e.2) := by
  have hperm := h.entries.filter fun e => f.test e.2
  rwa [List.filter_map] at hperm

theorem InStep.size (h : InStep i l) : i.size = l.arcs.size := by
  rw [← length_entries h.valid, AssocMap.size, ← h.entries.length_eq, List.length_map]

theorem InStep.arcsTo (h : InStep i l) (n : VertexKey) :
    (i.arcsTo n).Perm ((l.arcs.entries.filter fun e => e.1.1 = n).map Prod.snd) := by
  have hperm := (h.entries.filter fun e => decide (e.1.1 = n)).map Prod.snd
  rw [List.filter_map, List.map_map] at hperm
  rw [arcsTo_eq_filter_entries]
  exact hperm

theorem InStep.mem_neighbors_iff (h : InStep i l) (n : VertexKey) :
    n ∈ (l.arcs.keys.map Prod.fst).toFinset ↔ i.arcsTo n ≠ [] := by
  rw [List.mem_toFinset, AssocMap.keys, List.map_map, List.mem_map]
  constructor
  · rintro ⟨⟨p, a⟩, hp, rfl⟩ hnil
    rw [h.place_eq hp, h.mem_ledger_iff, mem_entries_iff] at hp
    rw [show i.arcsTo p.1 = [] from hnil] at hp
    exact List.not_mem_nil hp
  · intro hne
    obtain ⟨a, ha⟩ := List.exists_mem_of_ne_nil _ hne
    exact ⟨(a.place n, a), (h.mem_ledger_iff n a).2 (mem_entries_iff.2 ha), rfl⟩

/-- A valid index counts the neighbors that it has arcs toward. -/
theorem neighborCount_eq_card (h : i.Valid) (neighbors : Finset VertexKey)
    (hn : ∀ n, n ∈ neighbors ↔ i.arcsTo n ≠ []) : i.neighborCount = neighbors.card := by
  cases i with
  | empty =>
    have hnone : neighbors = ∅ := Finset.eq_empty_of_forall_notMem fun n hm => (hn n).1 hm rfl
    rw [hnone]
    rfl
  | single m a =>
    have hone : neighbors = {m} := by
      ext n
      by_cases hm : m = n <;> simp [hn, ArcIndex.arcsTo, hm, eq_comm]
    rw [hone]
    rfl
  | multi arcs size =>
    have hkeys : neighbors = arcs.keys.toFinset := by
      ext n
      rw [hn, List.mem_toFinset]
      constructor
      · intro hne
        cases hg : arcs.get? n with
        | none => exact absurd (by rw [ArcIndex.arcsTo, hg]; rfl) hne
        | some list => exact List.mem_map.2 ⟨(n, list), (arcs.mem_entries_iff n list).2 hg, rfl⟩
      · intro hm
        obtain ⟨⟨m, list⟩, he, rfl⟩ := List.mem_map.1 hm
        have hg := (arcs.mem_entries_iff m list).1 he
        rw [ArcIndex.arcsTo, hg]
        exact (h.2.2 m list hg).1
    have hnodup : arcs.keys.Nodup := arcs.nodup
    rw [hkeys, List.toFinset_card_of_nodup hnodup, AssocMap.keys, List.length_map]
    rfl

theorem tier_eq_tierFor (h : i.Valid) : i.tier = tierFor i.size := by
  cases i with
  | empty => rfl
  | single => rfl
  | multi arcs size =>
    obtain ⟨k, rfl⟩ := Nat.exists_eq_add_of_le h.2.1
    rw [Nat.add_comm]
    rfl

theorem InStep.represents (h : InStep i l) : i.Represents l where
  get? := h.get?
  contains n := by
    have hslots : i.contains n = true ↔ ∃ s, s ∈ (i.arcsTo n).map StoredArc.slot := by
      unfold ArcIndex.contains
      cases i.arcsTo n <;> simp
    rw [hslots]
    constructor
    · rintro ⟨s, hs⟩
      exact ⟨s.1, s.2, (mem_slots_iff h n s).1 hs⟩
    · rintro ⟨r, k, hp⟩
      exact ⟨(r, k), (mem_slots_iff h n (r, k)).2 hp⟩
  arcsTo := h.arcsTo
  ordered n := by
    have hslots := h.ordered n
    rwa [List.pairwise_map] at hslots
  size := h.size
  isEmpty := by
    rw [ArcIndex.isEmpty, beq_iff_eq, h.size, AssocMap.size, List.length_eq_zero_iff]
  neighborCount := neighborCount_eq_card h.valid _ h.mem_neighbors_iff
  entries := h.entries
  iter count := by
    rw [ArcCursor.take_eq_take_left, ArcIndex.entries, ArcCursor.toList_eq_left]
  matching := h.matching
  countMatching f := by
    rw [ArcIndex.countMatching, List.countP_eq_length_filter, ← (h.matching f).length_eq,
      List.length_map]
  tier := by
    rw [tier_eq_tierFor h.valid, h.size]
  multi arcs size hi := by
    subst hi
    obtain ⟨hs, _, hl⟩ := h.valid
    exact ⟨hs, fun n list hg => (hl n list hg).1⟩

end

end ArcIndex

end Arcbase
