import Arcbase.Arc.Index
import Arcbase.Proofs.AssocMap
import Mathlib.Data.List.Pairwise
set_option autoImplicit false

/-!
# Arc indexes in their simplest form

An index is *valid* if its form fits its contents: a map holds at least two arcs,
lists no neighbor without arcs, has no two arcs in one slot, and knows its size.
Insertion and removal keep that, and on valid indexes both act on slots alone:

* `get?_remove`: removal empties exactly its slot;
* `size_insert`, `size_remove`: the size counts the filled slots;
* `mem_arcsTo_iff`: an arc is in an index exactly if it fills its own slot.
-/

namespace Arcbase

/-- The slot an arc is in. -/
def StoredArc.slot (a : StoredArc) : LabelCode × ArcKind := (a.relationship, a.kind)

/-! ## Lists of arcs toward one neighbor -/

namespace Slots

theorem inSlot_iff_slot {a : StoredArc} {relationship : LabelCode} {kind : ArcKind} :
    a.inSlot relationship kind = true ↔ a.slot = (relationship, kind) := by
  rw [inSlot_iff, StoredArc.slot, Prod.mk.injEq]

/-- No two arcs are in one slot. -/
def Distinct (l : List StoredArc) : Prop := (l.map StoredArc.slot).Nodup

theorem slot_of_find? {relationship : LabelCode} {kind : ArcKind} {l : List StoredArc}
    {a : StoredArc} (h : find? relationship kind l = some a) :
    a ∈ l ∧ a.slot = (relationship, kind) := by
  have hs : a.inSlot relationship kind = true := by simpa using List.find?_some h
  exact ⟨List.mem_of_find?_eq_some h, inSlot_iff_slot.1 hs⟩

/-- In a list without repeated slots an arc is what its slot holds. -/
theorem mem_iff_find? {l : List StoredArc} (h : Distinct l) (a : StoredArc) :
    a ∈ l ↔ find? a.relationship a.kind l = some a := by
  constructor
  · intro hm
    cases hf : find? a.relationship a.kind l with
    | none =>
      have hnot := List.find?_eq_none.1 hf a hm
      rw [inSlot_iff_slot] at hnot
      exact absurd rfl hnot
    | some b =>
      obtain ⟨hb, hs⟩ := slot_of_find? hf
      exact congrArg some (List.inj_on_of_nodup_map h hb hm hs)
  · exact fun hf => (slot_of_find? hf).1

/-- What a removal leaves are the arcs of the other slots. -/
theorem remove_eq_filter {l : List StoredArc} (h : Distinct l) (relationship : LabelCode)
    (kind : ArcKind) :
    remove relationship kind l = l.filter fun a => !a.inSlot relationship kind := by
  induction l with
  | nil => rfl
  | cons a rest ih =>
    simp only [Distinct, List.map_cons, List.nodup_cons] at h
    by_cases ha : a.inSlot relationship kind = true
    · have hrest : rest.filter (fun b => !b.inSlot relationship kind) = rest := by
        refine List.filter_eq_self.2 fun b hb => ?_
        rw [Bool.not_eq_true', Bool.eq_false_iff]
        intro hbs
        rw [inSlot_iff_slot] at ha hbs
        exact h.1 (List.mem_map.2 ⟨b, hb, hbs.trans ha.symm⟩)
      simp [remove, ha, hrest]
    · have ih' := ih h.2
      simp only [remove] at ih'
      simp [remove, ha, ih']

theorem distinct_remove {l : List StoredArc} (h : Distinct l) (relationship : LabelCode)
    (kind : ArcKind) : Distinct (remove relationship kind l) :=
  h.sublist (List.Sublist.map _ List.eraseP_sublist)

theorem map_slot_put (arc : StoredArc) (l : List StoredArc) :
    (put arc l).map StoredArc.slot =
      if arc.slot ∈ l.map StoredArc.slot then l.map StoredArc.slot
      else l.map StoredArc.slot ++ [arc.slot] := by
  induction l with
  | nil => simp [put]
  | cons a rest ih =>
    by_cases ha : a.inSlot arc.relationship arc.kind = true
    · have hs : a.slot = arc.slot := inSlot_iff_slot.1 ha
      simp [put, ha, hs]
    · have hs : ¬ arc.slot = a.slot := fun e => ha (inSlot_iff_slot.2 e.symm)
      simp only [put, ha, if_false, List.map_cons, ih, List.mem_cons, hs, false_or,
        Bool.false_eq_true]
      split <;> rfl

theorem distinct_put (arc : StoredArc) {l : List StoredArc} (h : Distinct l) :
    Distinct (put arc l) := by
  unfold Distinct
  rw [map_slot_put]
  by_cases hm : arc.slot ∈ l.map StoredArc.slot
  · rwa [if_pos hm]
  · rw [if_neg hm]
    exact List.nodup_append.2 ⟨h, List.nodup_singleton _, by
      intro s hs t ht e
      rw [List.mem_singleton] at ht
      exact hm (ht ▸ e ▸ hs)⟩

theorem find?_remove {l : List StoredArc} (h : Distinct l)
    (relationship relationship' : LabelCode) (kind kind' : ArcKind) :
    find? relationship' kind' (remove relationship kind l) =
      if (relationship, kind) = (relationship', kind') then none
      else find? relationship' kind' l := by
  rw [remove_eq_filter h, find?, List.find?_filter]
  by_cases he : (relationship, kind) = (relationship', kind')
  · rw [if_pos he, List.find?_eq_none]
    intro a _
    cases he
    simp
  · rw [if_neg he, find?]
    congr 1
    funext a
    by_cases ha : a.inSlot relationship' kind' = true
    · have hn : ¬ a.inSlot relationship kind = true := fun hb =>
        he ((inSlot_iff_slot.1 hb).symm.trans (inSlot_iff_slot.1 ha))
      simp [ha, hn]
    · simp [ha]

/-- Counting arcs of a kind, putting one trades the old arc of its slot for it. -/
theorem countP_put (p : StoredArc → Bool) (arc : StoredArc) (l : List StoredArc) :
    (put arc l).countP p +
        ((find? arc.relationship arc.kind l).map fun a => (p a).toNat).getD 0 =
      l.countP p + (p arc).toNat := by
  induction l with
  | nil => cases hp : p arc <;> simp [put, find?, hp]
  | cons a rest ih =>
    by_cases ha : a.inSlot arc.relationship arc.kind = true
    · have hf : find? arc.relationship arc.kind (a :: rest) = some a := by simp [find?, ha]
      simp only [put, ha, if_true, hf, Option.map_some, Option.getD_some, List.countP_cons]
      cases p a <;> cases p arc <;> simp
    · have hf : find? arc.relationship arc.kind (a :: rest) =
          find? arc.relationship arc.kind rest := by simp [find?, ha]
      simp only [put, ha, hf, List.countP_cons, if_false, Bool.false_eq_true]
      omega

theorem countP_remove (p : StoredArc → Bool) (relationship : LabelCode) (kind : ArcKind)
    (l : List StoredArc) :
    (remove relationship kind l).countP p +
        ((find? relationship kind l).map fun a => (p a).toNat).getD 0 =
      l.countP p := by
  induction l with
  | nil => rfl
  | cons a rest ih =>
    by_cases ha : a.inSlot relationship kind = true
    · have hf : find? relationship kind (a :: rest) = some a := by simp [find?, ha]
      simp only [remove, ha, List.eraseP_cons_of_pos, hf, Option.map_some, Option.getD_some,
        List.countP_cons]
      cases p a <;> simp
    · have hf : find? relationship kind (a :: rest) = find? relationship kind rest := by
        simp [find?, ha]
      have hr : remove relationship kind (a :: rest) = a :: remove relationship kind rest :=
        List.eraseP_cons_of_neg ha
      rw [hr, hf, List.countP_cons, List.countP_cons]
      omega

theorem length_remove (relationship : LabelCode) (kind : ArcKind) (l : List StoredArc) :
    (remove relationship kind l).length + (find? relationship kind l).isSome.toNat = l.length := by
  have h := countP_remove (fun _ => true) relationship kind l
  simp only [List.countP_true] at h
  cases hf : find? relationship kind l <;> simpa [hf] using h

end Slots

/-! ## Enumerations -/

namespace ArcCursor

/-- The arcs to come, read off the lists that hold them. -/
def left : ArcCursor → List (VertexKey × StoredArc)
  | done => []
  | single item => item.toList
  | multi outer current => (current.toList ++ outer).flatMap fun (n, l) => l.map fun a => (n, a)

/-- Lists without arcs are passed over: what is taken is the first arc to come, and
the others stay to come. -/
theorem advance_left (outer : List (VertexKey × List StoredArc))
    (current : Option (VertexKey × List StoredArc)) :
    (advance outer current).1 = (multi outer current).left.head? ∧
      (advance outer current).2.left = (multi outer current).left.tail := by
  induction outer generalizing current with
  | nil =>
    match current with
    | none => exact ⟨rfl, rfl⟩
    | some (n, []) => exact ⟨rfl, rfl⟩
    | some (n, a :: rest) => exact ⟨rfl, rfl⟩
  | cons list outer ih =>
    match current with
    | none => exact ih (some list)
    | some (n, []) => exact ih (some list)
    | some (n, a :: rest) => exact ⟨rfl, rfl⟩

theorem next_left (c : ArcCursor) :
    c.next.1 = c.left.head? ∧ c.next.2.left = c.left.tail := by
  cases c with
  | done => exact ⟨rfl, rfl⟩
  | single item => cases item <;> exact ⟨rfl, rfl⟩
  | multi outer current => exact advance_left outer current

theorem length_left (c : ArcCursor) : c.left.length = c.remaining := by
  cases c with
  | done => rfl
  | single item => rfl
  | multi outer current => simp [left, remaining, List.length_flatMap]

theorem take_eq_take_left (count : Nat) (c : ArcCursor) : c.take count = c.left.take count := by
  induction count generalizing c with
  | zero => rfl
  | succ count ih =>
    obtain ⟨hitem, hleft⟩ := c.next_left
    unfold take
    generalize c.next = step at hitem hleft
    obtain ⟨item, c'⟩ := step
    cases hl : c.left with
    | nil =>
      rw [hl] at hitem
      subst hitem
      rfl
    | cons x rest =>
      rw [hl] at hitem hleft
      subst hitem
      change x :: c'.take count = _
      rw [ih c']
      exact congrArg (fun l => x :: l.take count) hleft

/-- An enumeration comes to all the arcs that are to come. -/
theorem toList_eq_left (c : ArcCursor) : c.toList = c.left := by
  rw [toList, take_eq_take_left, ← length_left, List.take_length]

end ArcCursor

/-! ## Indexes -/

namespace ArcIndex

/-- A map lists no neighbor without arcs, and no slot twice. -/
def Listed (arcs : AssocMap VertexKey (List StoredArc)) : Prop :=
  ∀ n l, arcs.get? n = some l → l ≠ [] ∧ Slots.Distinct l

/-- Number of arcs in a map. -/
def total (arcs : AssocMap VertexKey (List StoredArc)) : Nat := (arcs.values.map List.length).sum

/-- The form of the index is the simplest that serves its contents. -/
def Valid : ArcIndex → Prop
  | empty => True
  | single .. => True
  | multi arcs size => size = total arcs ∧ 2 ≤ size ∧ Listed arcs

theorem valid_empty : empty.Valid := trivial

theorem distinct_arcsTo {i : ArcIndex} (h : i.Valid) (n : VertexKey) :
    Slots.Distinct (i.arcsTo n) := by
  cases i with
  | empty => exact List.nodup_nil
  | single m a =>
    by_cases hm : m = n <;> simp [arcsTo, hm, Slots.Distinct]
  | multi arcs size =>
    obtain ⟨_, _, hl⟩ := h
    cases hg : arcs.get? n with
    | none => simp [arcsTo, hg, Slots.Distinct]
    | some l =>
      have hd := (hl n l hg).2
      simpa [arcsTo, hg] using hd

/-- An arc is in a valid index exactly if it fills its own slot. -/
theorem mem_arcsTo_iff {i : ArcIndex} (h : i.Valid) (n : VertexKey) (a : StoredArc) :
    a ∈ i.arcsTo n ↔ i.get? n a.relationship a.kind = some a :=
  Slots.mem_iff_find? (distinct_arcsTo h n) a

theorem get?_slot {i : ArcIndex} {n : VertexKey} {relationship : LabelCode} {kind : ArcKind}
    {a : StoredArc} (h : i.get? n relationship kind = some a) :
    a ∈ i.arcsTo n ∧ a.relationship = relationship ∧ a.kind = kind := by
  obtain ⟨hm, hs⟩ := Slots.slot_of_find? h
  exact ⟨hm, (Prod.mk.inj hs).1, (Prod.mk.inj hs).2⟩

/-! ### The arcs of an index as one list -/

theorem entries_single (n : VertexKey) (a : StoredArc) : (single n a).entries = [(n, a)] := rfl

theorem entries_multi (arcs : AssocMap VertexKey (List StoredArc)) (size : Nat) :
    (multi arcs size).entries = arcs.entries.flatMap fun (n, l) => l.map fun a => (n, a) :=
  ArcCursor.toList_eq_left _

theorem filter_flatMap_pairs (n : VertexKey) (l : List (VertexKey × List StoredArc))
    (h : (l.map Prod.fst).Nodup) :
    ((l.flatMap fun (m, arcs) => arcs.map fun a => (m, a)).filter fun p => p.1 = n).map Prod.snd =
      (Entries.find n l).getD [] := by
  induction l with
  | nil => rfl
  | cons p rest ih =>
    obtain ⟨m, arcs⟩ := p
    simp only [List.map_cons, List.nodup_cons] at h
    rw [List.flatMap_cons, List.filter_append, List.map_append, ih h.2]
    by_cases hm : m = n
    · have hnone : Entries.find n rest = none := by
        cases hf : Entries.find n rest with
        | none => rfl
        | some l => exact absurd (List.mem_map.2 ⟨(n, l), Entries.mem_of_find hf, hm.symm⟩) h.1
      simp [Entries.find, hm, hnone, List.filter_map, Function.comp_def]
    · simp [Entries.find, hm, List.filter_map, Function.comp_def]

theorem arcsTo_eq_filter_entries (i : ArcIndex) (n : VertexKey) :
    i.arcsTo n = (i.entries.filter fun p => p.1 = n).map Prod.snd := by
  cases i with
  | empty => rfl
  | single m a => by_cases hm : m = n <;> simp [arcsTo, entries_single, hm]
  | multi arcs size =>
    rw [entries_multi]
    exact (filter_flatMap_pairs n arcs.entries arcs.nodup).symm

theorem mem_entries_iff {i : ArcIndex} {n : VertexKey} {a : StoredArc} :
    (n, a) ∈ i.entries ↔ a ∈ i.arcsTo n := by
  rw [arcsTo_eq_filter_entries]
  simp

theorem length_entries_multi (arcs : AssocMap VertexKey (List StoredArc)) (size : Nat) :
    (multi arcs size).entries.length = total arcs := by
  simp [entries_multi, total, AssocMap.values, List.length_flatMap, Function.comp_def]

theorem length_entries {i : ArcIndex} (h : i.Valid) : i.entries.length = i.size := by
  cases i with
  | empty => rfl
  | single m a => rfl
  | multi arcs size => rw [length_entries_multi, ← h.1]; rfl

theorem nodup_entries {i : ArcIndex} (h : i.Valid) : i.entries.Nodup := by
  cases i with
  | empty => exact List.nodup_nil
  | single m a => exact List.nodup_singleton _
  | multi arcs size =>
    rw [entries_multi]
    refine List.nodup_flatMap.2 ⟨?_, ?_⟩
    · rintro ⟨n, l⟩ hm
      have hd := (h.2.2 n l ((arcs.mem_entries_iff n l).1 hm)).2
      exact (List.Nodup.of_map _ hd).map fun a b e => (Prod.mk.inj e).2
    · refine List.Pairwise.imp ?_ (List.pairwise_map.1 arcs.nodup)
      rintro ⟨n, l⟩ ⟨n', l'⟩ hne ⟨m, a⟩ hl hl'
      simp only [List.mem_map, Prod.mk.injEq] at hl hl'
      obtain ⟨_, _, rfl, _⟩ := hl
      obtain ⟨_, _, rfl, _⟩ := hl'
      exact hne rfl

theorem size_eq_zero_iff {i : ArcIndex} (h : i.Valid) : i.size = 0 ↔ ∀ n, i.arcsTo n = [] := by
  rw [← length_entries h, List.length_eq_zero_iff]
  constructor
  · intro he n
    rw [arcsTo_eq_filter_entries, he]
    rfl
  · intro ha
    refine List.eq_nil_iff_forall_not_mem.2 ?_
    rintro ⟨n, a⟩ hm
    rw [mem_entries_iff, ha n] at hm
    exact List.not_mem_nil hm

theorem eq_empty_of_size_eq_zero {i : ArcIndex} (h : i.Valid) (hz : i.size = 0) : i = .empty := by
  cases i with
  | empty => rfl
  | single => cases hz
  | multi arcs size => exact absurd hz (Nat.ne_of_gt (Nat.lt_of_lt_of_le Nat.two_pos h.2.1))

/-- An index is empty if it holds no arc. -/
theorem eq_empty_of_arcsTo {i : ArcIndex} (h : i.Valid) (hn : ∀ n, ∀ a, a ∉ i.arcsTo n) :
    i = .empty :=
  eq_empty_of_size_eq_zero h
    ((size_eq_zero_iff h).2 fun n => List.eq_nil_iff_forall_not_mem.2 (hn n))

/-! ### Maps of lists -/

theorem put_ne_nil (arc : StoredArc) (l : List StoredArc) : Slots.put arc l ≠ [] := by
  cases l with
  | nil => simp [Slots.put]
  | cons a rest =>
    simp only [Slots.put]
    split <;> simp

theorem distinct_getD {arcs : AssocMap VertexKey (List StoredArc)} (h : Listed arcs)
    (n : VertexKey) : Slots.Distinct ((arcs.get? n).getD []) := by
  cases hg : arcs.get? n with
  | none => exact List.nodup_nil
  | some l => exact (h n l hg).2

theorem listed_put {arcs : AssocMap VertexKey (List StoredArc)} (h : Listed arcs)
    (n : VertexKey) (arc : StoredArc) :
    Listed (arcs.insert n (Slots.put arc ((arcs.get? n).getD []))) := by
  intro m l hl
  rw [AssocMap.get?_insert] at hl
  by_cases hm : n = m
  · rw [if_pos hm] at hl
    cases hl
    exact ⟨put_ne_nil arc _, Slots.distinct_put arc (distinct_getD h n)⟩
  · rw [if_neg hm] at hl
    exact h m l hl

theorem total_put (arcs : AssocMap VertexKey (List StoredArc)) (n : VertexKey)
    (arc : StoredArc) :
    total (arcs.insert n (Slots.put arc ((arcs.get? n).getD []))) =
      if (Slots.find? arc.relationship arc.kind ((arcs.get? n).getD [])).isSome then total arcs
      else total arcs + 1 := by
  have hsum := arcs.sum_values_insert n (Slots.put arc ((arcs.get? n).getD [])) List.length
  have hold : ((arcs.get? n).map List.length).getD 0 = ((arcs.get? n).getD []).length := by
    cases arcs.get? n <;> rfl
  rw [hold, Slots.length_put] at hsum
  change total _ + _ = total arcs + _ at hsum
  split at hsum
  next h =>
    rw [if_pos h]
    omega
  next h =>
    rw [if_neg h]
    omega

/-- What becomes of the list of a neighbor that has lost an arc. -/
theorem listed_left {arcs : AssocMap VertexKey (List StoredArc)} (h : Listed arcs)
    (n : VertexKey) {left : List StoredArc} (hd : Slots.Distinct left) :
    Listed (if left.isEmpty then arcs.erase n else arcs.insert n left) := by
  intro m l hl
  cases left with
  | nil =>
    simp only [List.isEmpty_nil, if_true, AssocMap.get?_erase] at hl
    split at hl
    · cases hl
    · exact h m l hl
  | cons a rest =>
    simp only [List.isEmpty_cons, Bool.false_eq_true, if_false, AssocMap.get?_insert] at hl
    split at hl
    · cases hl
      exact ⟨List.cons_ne_nil a rest, hd⟩
    · exact h m l hl

theorem total_left (arcs : AssocMap VertexKey (List StoredArc)) (n : VertexKey)
    (left : List StoredArc) :
    total (if left.isEmpty then arcs.erase n else arcs.insert n left) +
        ((arcs.get? n).getD []).length =
      total arcs + left.length := by
  have hold : ((arcs.get? n).map List.length).getD 0 = ((arcs.get? n).getD []).length := by
    cases arcs.get? n <;> rfl
  cases left with
  | nil =>
    have hsum := arcs.sum_values_erase n List.length
    rw [hold] at hsum
    simpa [total] using hsum
  | cons a rest =>
    have hsum := arcs.sum_values_insert n (a :: rest) List.length
    rw [hold] at hsum
    simpa [total] using hsum

theorem getD_left (arcs : AssocMap VertexKey (List StoredArc)) (n m : VertexKey)
    (left : List StoredArc) :
    ((if left.isEmpty then arcs.erase n else arcs.insert n left).get? m).getD [] =
      if n = m then left else (arcs.get? m).getD [] := by
  cases left with
  | nil =>
    simp only [List.isEmpty_nil, if_true, AssocMap.get?_erase]
    split <;> rfl
  | cons a rest =>
    simp only [List.isEmpty_cons, Bool.false_eq_true, if_false, AssocMap.get?_insert]
    split <;> rfl

/-! ### Insertion -/

theorem size_insert (i : ArcIndex) (n : VertexKey) (arc : StoredArc) :
    (i.insert n arc).2.size =
      if (i.get? n arc.relationship arc.kind).isSome then i.size else i.size + 1 := by
  cases i with
  | empty => rfl
  | single m a =>
    cases ho : (single m a).get? n arc.relationship arc.kind <;> simp [insert, ho, size]
  | multi arcs s =>
    cases ho : (multi arcs s).get? n arc.relationship arc.kind <;> simp [insert, ho, size]

theorem valid_insert {i : ArcIndex} (h : i.Valid) (n : VertexKey) (arc : StoredArc) :
    (i.insert n arc).2.Valid := by
  cases i with
  | empty => trivial
  | single m a =>
    cases ho : (single m a).get? n arc.relationship arc.kind with
    | some old =>
      simp only [insert, ho, Option.isSome_some, if_true]
      trivial
    | none =>
      have hfirst : Listed (AssocMap.empty.insert m [a]) := by
        intro m' l hl
        rw [AssocMap.get?_insert] at hl
        split at hl
        · cases hl
          exact ⟨List.cons_ne_nil a [], List.nodup_singleton _⟩
        · cases hl
      have hget :
          (((AssocMap.empty : AssocMap VertexKey (List StoredArc)).insert m [a]).get? n).getD [] =
            (single m a).arcsTo n := by
        rw [AssocMap.get?_insert, arcsTo]
        split <;> rfl
      have htotal := total_put (AssocMap.empty.insert m [a]) n arc
      rw [hget, if_neg (by simpa [get?] using ho)] at htotal
      simp only [insert, ho, Option.isSome_none, Bool.false_eq_true, if_false, hget]
      rw [← hget]
      exact ⟨by rw [hget, htotal]; rfl, Nat.le_refl 2, listed_put hfirst n arc⟩
  | multi arcs s =>
    obtain ⟨hs, h2, hl⟩ := h
    refine ⟨?_, ?_, listed_put hl n arc⟩
    · rw [total_put arcs n arc, ← hs]
      rfl
    · split
      · exact h2
      · omega

/-! ### Removal -/

/-- Bringing a map into its simplest form changes no arc. -/
theorem entries_demote (arcs : AssocMap VertexKey (List StoredArc)) {number : Nat}
    (h : number = total arcs) : (demote arcs number).entries = (multi arcs number).entries := by
  have hlen : (multi arcs number).entries.length = number :=
    (length_entries_multi arcs number).trans h.symm
  unfold demote
  split
  next => exact (List.length_eq_zero_iff.1 hlen).symm
  next n a rest he =>
    rw [he] at hlen ⊢
    have hnil : rest = [] := by simpa using hlen
    rw [hnil]
    rfl
  next => rfl

theorem arcsTo_demote (arcs : AssocMap VertexKey (List StoredArc)) {number : Nat}
    (h : number = total arcs) (n : VertexKey) :
    (demote arcs number).arcsTo n = (arcs.get? n).getD [] := by
  rw [arcsTo_eq_filter_entries, entries_demote arcs h, ← arcsTo_eq_filter_entries]
  rfl

theorem valid_demote {arcs : AssocMap VertexKey (List StoredArc)} {number : Nat}
    (h : number = total arcs) (hl : Listed arcs) : (demote arcs number).Valid := by
  have hlen : (multi arcs number).entries.length = number :=
    (length_entries_multi arcs number).trans h.symm
  match number, hlen with
  | 0, _ => trivial
  | 1, hlen =>
    obtain ⟨⟨n, a⟩, he⟩ := List.length_eq_one_iff.1 hlen
    simp only [demote, he]
    trivial
  | k + 2, _ => exact ⟨h, by omega, hl⟩

theorem size_demote {arcs : AssocMap VertexKey (List StoredArc)} {number : Nat}
    (h : number = total arcs) (hl : Listed arcs) : (demote arcs number).size = number := by
  rw [← length_entries (valid_demote h hl), entries_demote arcs h, length_entries_multi]
  exact h.symm

theorem fst_remove (i : ArcIndex) (n : VertexKey) (relationship : LabelCode) (kind : ArcKind) :
    (i.remove n relationship kind).1 = i.get? n relationship kind := by
  unfold remove
  split
  next h => rw [h]
  next h => rw [h]

theorem remove_of_get?_eq_none {i : ArcIndex} {n : VertexKey} {relationship : LabelCode}
    {kind : ArcKind} (h : i.get? n relationship kind = none) :
    i.remove n relationship kind = (none, i) := by
  simp [remove, h]

/-- The total of a map that has lost the arc of a slot. -/
theorem total_remove {arcs : AssocMap VertexKey (List StoredArc)} {n : VertexKey}
    {relationship : LabelCode} {kind : ArcKind} {old : StoredArc}
    (h : Slots.find? relationship kind ((arcs.get? n).getD []) = some old) :
    total arcs - 1 =
      total (if (Slots.remove relationship kind ((arcs.get? n).getD [])).isEmpty then arcs.erase n
        else arcs.insert n (Slots.remove relationship kind ((arcs.get? n).getD []))) := by
  have hleft := total_left arcs n (Slots.remove relationship kind ((arcs.get? n).getD []))
  have hlen := Slots.length_remove relationship kind ((arcs.get? n).getD [])
  rw [h] at hlen
  simp only [Option.isSome_some, Bool.toNat_true] at hlen
  omega

theorem valid_remove {i : ArcIndex} (h : i.Valid) (n : VertexKey) (relationship : LabelCode)
    (kind : ArcKind) : (i.remove n relationship kind).2.Valid := by
  cases ho : i.get? n relationship kind with
  | none => rwa [remove_of_get?_eq_none ho]
  | some old =>
    cases i with
    | empty => simp [remove, ho, Valid]
    | single m a => simp [remove, ho, Valid]
    | multi arcs s =>
      obtain ⟨hs, _, hl⟩ := h
      simp only [remove, ho]
      exact valid_demote (by rw [hs]; exact total_remove ho)
        (listed_left hl n (Slots.distinct_remove (distinct_getD hl n) _ _))

/-- A removal takes the arc out of its slot, and touches no other neighbor. -/
theorem arcsTo_remove {i : ArcIndex} (h : i.Valid) (n n' : VertexKey) (relationship : LabelCode)
    (kind : ArcKind) :
    (i.remove n relationship kind).2.arcsTo n' =
      if n = n' then Slots.remove relationship kind (i.arcsTo n) else i.arcsTo n' := by
  cases ho : i.get? n relationship kind with
  | none =>
    rw [remove_of_get?_eq_none ho]
    by_cases hn : n = n'
    · subst hn
      rw [if_pos rfl, Slots.remove, List.eraseP_of_forall_not]
      intro a ha
      exact List.find?_eq_none.1 ho a ha
    · rw [if_neg hn]
  | some old =>
    cases i with
    | empty => simp at ho
    | single m a =>
      obtain ⟨hm, hr, hk⟩ := get?_slot ho
      simp only [arcsTo] at hm
      have hmn : m = n := by
        by_contra hne
        simp [hne] at hm
      subst hmn
      rw [if_pos rfl, List.mem_singleton] at hm
      subst hm
      have hs : old.inSlot relationship kind = true := Slots.inSlot_iff_slot.2 (Prod.ext hr hk)
      simp only [remove, ho, arcsTo, if_true]
      by_cases hn : m = n' <;> simp [hn, Slots.remove, hs]
    | multi arcs s =>
      obtain ⟨hs, _, hl⟩ := h
      simp only [remove, ho]
      rw [arcsTo_demote _ (by rw [hs]; exact total_remove ho), getD_left]
      rfl

theorem mem_arcsTo_of_remove {i : ArcIndex} (h : i.Valid) {n n' : VertexKey}
    {relationship : LabelCode} {kind : ArcKind} {a : StoredArc}
    (ha : a ∈ (i.remove n relationship kind).2.arcsTo n') : a ∈ i.arcsTo n' := by
  rw [arcsTo_remove h] at ha
  split at ha
  next hn => exact hn ▸ List.mem_of_mem_eraseP ha
  next => exact ha

theorem get?_remove {i : ArcIndex} (h : i.Valid) (n n' : VertexKey)
    (relationship relationship' : LabelCode) (kind kind' : ArcKind) :
    (i.remove n relationship kind).2.get? n' relationship' kind' =
      if n = n' ∧ relationship = relationship' ∧ kind = kind' then none
      else i.get? n' relationship' kind' := by
  unfold get?
  rw [arcsTo_remove h]
  by_cases hn : n = n'
  · subst hn
    rw [if_pos rfl, Slots.find?_remove (distinct_arcsTo h n)]
    simp
  · simp [hn]

theorem size_remove {i : ArcIndex} (h : i.Valid) (n : VertexKey) (relationship : LabelCode)
    (kind : ArcKind) :
    (i.remove n relationship kind).2.size + (i.get? n relationship kind).isSome.toNat = i.size := by
  cases ho : i.get? n relationship kind with
  | none => simp [remove_of_get?_eq_none ho]
  | some old =>
    cases i with
    | empty => simp at ho
    | single m a => simp [remove, ho, size]
    | multi arcs s =>
      obtain ⟨hs, h2, hl⟩ := h
      have hlisted := listed_left hl n
        (Slots.distinct_remove (distinct_getD hl n) relationship kind)
      have hsize := size_demote (hs ▸ total_remove ho) hlisted
      simp only [remove, ho, Option.isSome_some, Bool.toNat_true]
      rw [hsize]
      exact Nat.sub_add_cancel (Nat.le_trans (Nat.le_succ 1) h2)

end ArcIndex

end Arcbase
