import Arcbase.AssocMap
import Mathlib.Algebra.BigOperators.Group.List.Basic
import Mathlib.Algebra.GroupWithZero.Nat
import Mathlib.Data.List.Nodup
import Mathlib.Data.List.Perm.Basic
set_option autoImplicit false

/-!
# Association lists as multisets of pairs

The list behind a map is determined by the map's view up to order: an insertion
puts one pair in front of the list without its key, and a pair that is present
can be moved to the front.  Sums over the values follow from these two
permutations alone.
-/

namespace Arcbase

namespace Entries

variable {α β : Type} [DecidableEq α]

/-- A key that is not listed goes to the end. -/
theorem put_of_find_eq_none {k : α} {l : List (α × β)} (h : find k l = none) (v : β) :
    put k v l = l ++ [(k, v)] := by
  induction l with
  | nil => rfl
  | cons p rest ih =>
    obtain ⟨k', v'⟩ := p
    by_cases hk : k' = k
    · simp [find, hk] at h
    · simp only [find, hk, if_false] at h
      simp [put, hk, ih h]

/-- Overwriting a pair and putting its old value back changes nothing. -/
theorem put_put_of_find {k : α} {w : β} {l : List (α × β)} (h : find k l = some w) (v : β) :
    put k w (put k v l) = l := by
  induction l with
  | nil => cases h
  | cons p rest ih =>
    obtain ⟨k', v'⟩ := p
    by_cases hk : k' = k
    · simp only [find, hk, if_true, Option.some.injEq] at h
      simp [put, hk, h]
    · simp only [find, hk, if_false] at h
      simp [put, hk, ih h]

end Entries

namespace AssocMap

variable {α β : Type}

theorem nodup_entries (m : AssocMap α β) : m.entries.Nodup := List.Nodup.of_map Prod.fst m.nodup

theorem eq_of_entries {m m' : AssocMap α β} (h : m.entries = m'.entries) : m = m' := by
  obtain ⟨entries, nodup⟩ := m
  obtain ⟨entries', nodup'⟩ := m'
  cases h
  rfl

theorem eq_empty_of_size_eq_zero {m : AssocMap α β} (h : m.size = 0) : m = .empty := by
  have hnil : m.entries = [] := List.length_eq_zero_iff.1 h
  exact eq_of_entries hnil

variable [DecidableEq α]

theorem entries_insert_of_get?_eq_none {m : AssocMap α β} {k : α} (h : m.get? k = none) (v : β) :
    (m.insert k v).entries = m.entries ++ [(k, v)] := Entries.put_of_find_eq_none h v

theorem mem_values_iff {m : AssocMap α β} {v : β} : v ∈ m.values ↔ ∃ k, m.get? k = some v := by
  simp only [values, List.mem_map, Prod.exists]
  constructor
  · rintro ⟨k, v', hm, rfl⟩
    exact ⟨k, (m.mem_entries_iff k v').1 hm⟩
  · rintro ⟨k, hk⟩
    exact ⟨k, v, (m.mem_entries_iff k v).2 hk, rfl⟩

theorem get?_eq_none_of_size_eq_zero {m : AssocMap α β} (h : m.size = 0) (k : α) :
    m.get? k = none := by
  have hnil : m.entries = [] := List.length_eq_zero_iff.1 h
  simp [get?, hnil, Entries.find]

theorem size_eq_zero_iff {m : AssocMap α β} : m.size = 0 ↔ ∀ k, m.get? k = none := by
  refine ⟨get?_eq_none_of_size_eq_zero, fun h => ?_⟩
  rw [size, List.length_eq_zero_iff, List.eq_nil_iff_forall_not_mem]
  rintro ⟨k, v⟩ hm
  rw [mem_entries_iff, h k] at hm
  exact Option.some_ne_none v hm.symm

theorem contains_iff {m : AssocMap α β} {k : α} : m.contains k = true ↔ ∃ v, m.get? k = some v := by
  rw [contains, Option.isSome_iff_exists]

/-- A pair that is present stands in front of the list without its key. -/
theorem entries_perm_of_get? {m : AssocMap α β} {k : α} {v : β} (h : m.get? k = some v) :
    m.entries.Perm ((k, v) :: (m.erase k).entries) := by
  have hout : (k, v) ∉ (m.erase k).entries := by
    rw [mem_entries_iff, get?_erase, if_pos rfl]
    exact (Option.some_ne_none v).symm
  refine (List.perm_ext_iff_of_nodup m.nodup_entries
    (List.nodup_cons.2 ⟨hout, (m.erase k).nodup_entries⟩)).2 ?_
  rintro ⟨k', v'⟩
  rw [List.mem_cons, mem_entries_iff, mem_entries_iff, get?_erase]
  by_cases hk : k = k'
  · subst hk
    simp [h, eq_comm]
  · simp [hk, Ne.symm hk]

/-- Whatever an insertion meets, its pair stands in front of the list without the
key. -/
theorem entries_insert_perm (m : AssocMap α β) (k : α) (v : β) :
    (m.insert k v).entries.Perm ((k, v) :: (m.erase k).entries) := by
  have h : (m.insert k v).get? k = some v := by rw [get?_insert, if_pos rfl]
  refine (entries_perm_of_get? h).trans (List.Perm.cons _ ?_)
  refine (List.perm_ext_iff_of_nodup (nodup_entries _) (nodup_entries _)).2 ?_
  rintro ⟨k', v'⟩
  rw [mem_entries_iff, mem_entries_iff, get?_erase, get?_erase, get?_insert]
  by_cases hk : k = k' <;> simp [hk]

theorem erase_entries_of_get?_eq_none {m : AssocMap α β} {k : α} (h : m.get? k = none) :
    (m.erase k).entries = m.entries := by
  refine List.filter_eq_self.2 ?_
  rintro ⟨k', v'⟩ hm
  rw [mem_entries_iff] at hm
  have hne : k' ≠ k := by
    rintro rfl
    rw [h] at hm
    exact Option.some_ne_none v' hm.symm
  simpa using hne

/-- What is put under a new key and forgotten again leaves no trace. -/
theorem entries_erase_insert {m : AssocMap α β} {k : α} (h : m.get? k = none) (v : β) :
    ((m.insert k v).erase k).entries = m.entries := by
  have hkept : Entries.drop k m.entries = m.entries := erase_entries_of_get?_eq_none h
  have hlast : Entries.drop k [(k, v)] = [] := by simp [Entries.drop]
  change Entries.drop k (m.insert k v).entries = _
  rw [entries_insert_of_get?_eq_none h, Entries.drop, List.filter_append]
  exact (congr (congrArg List.append hkept) hlast).trans (List.append_nil _)

theorem erase_insert {m : AssocMap α β} {k : α} (h : m.get? k = none) (v : β) :
    (m.insert k v).erase k = m := eq_of_entries (entries_erase_insert h v)

theorem insert_insert_of_get? {m : AssocMap α β} {k : α} {w : β} (h : m.get? k = some w) (v : β) :
    (m.insert k v).insert k w = m := eq_of_entries (Entries.put_put_of_find h v)

theorem values_perm_of_get? {m : AssocMap α β} {k : α} {v : β} (h : m.get? k = some v) :
    m.values.Perm (v :: (m.erase k).values) := (entries_perm_of_get? h).map Prod.snd

theorem values_insert_perm (m : AssocMap α β) (k : α) (v : β) :
    (m.insert k v).values.Perm (v :: (m.erase k).values) := (entries_insert_perm m k v).map Prod.snd

/-- Weighing the values, an insertion trades the weight of the old value for that
of the new one. -/
theorem sum_values_insert (m : AssocMap α β) (k : α) (v : β) (w : β → Nat) :
    ((m.insert k v).values.map w).sum + ((m.get? k).map w).getD 0 = (m.values.map w).sum + w v := by
  rw [((values_insert_perm m k v).map w).sum_eq, List.map_cons, List.sum_cons]
  cases h : m.get? k with
  | none =>
    simp only [values, erase_entries_of_get?_eq_none h, Option.map_none, Option.getD_none]
    omega
  | some old =>
    rw [((values_perm_of_get? h).map w).sum_eq, List.map_cons, List.sum_cons]
    simp only [Option.map_some, Option.getD_some]
    omega

theorem sum_values_erase (m : AssocMap α β) (k : α) (w : β → Nat) :
    ((m.erase k).values.map w).sum + ((m.get? k).map w).getD 0 = (m.values.map w).sum := by
  cases h : m.get? k with
  | none => simp [values, erase_entries_of_get?_eq_none h]
  | some old =>
    rw [((values_perm_of_get? h).map w).sum_eq, List.map_cons, List.sum_cons]
    simp only [Option.map_some, Option.getD_some]
    omega

end AssocMap

end Arcbase
