set_option autoImplicit false

/-!
# Finite maps as association lists

`AssocMap α β` is a finite map kept as a list of pairs whose keys are pairwise
different.  The list is in the order in which the keys were first inserted:
overwriting a key keeps its place, erasing a key closes the gap.

The view of a map is the function `get?`; every operation has one equation
through that view (`get?_insert`, `get?_erase`), and `mem_entries_iff` ties the
list to it.
-/

namespace Arcbase

/-! ## Lists of pairs -/

namespace Entries

variable {α β : Type} [DecidableEq α]

/-- The value beside the first occurrence of `k`. -/
def find (k : α) : List (α × β) → Option β
  | [] => none
  | (k', v) :: rest => if k' = k then some v else find k rest

/-- Puts `v` beside the first occurrence of `k`, or appends the pair. -/
def put (k : α) (v : β) : List (α × β) → List (α × β)
  | [] => [(k, v)]
  | (k', v') :: rest => if k' = k then (k, v) :: rest else (k', v') :: put k v rest

/-- Drops every pair with key `k`. -/
def drop (k : α) (l : List (α × β)) : List (α × β) :=
  l.filter fun p => p.1 ≠ k

theorem map_fst_put (k : α) (v : β) (l : List (α × β)) :
    (put k v l).map Prod.fst =
      if k ∈ l.map Prod.fst then l.map Prod.fst else l.map Prod.fst ++ [k] := by
  induction l with
  | nil => simp [put]
  | cons p rest ih =>
    obtain ⟨k', v'⟩ := p
    by_cases h : k' = k
    · simp [put, h]
    · have h' : ¬ k = k' := fun e => h e.symm
      by_cases hm : k ∈ rest.map Prod.fst
      · simp only [put, h, if_false, List.map_cons, ih, hm, if_true,
          List.mem_cons, or_true]
      · simp only [put, h, if_false, List.map_cons, ih, hm, List.mem_cons, h', or_self,
          List.cons_append]

theorem nodup_put (k : α) (v : β) {l : List (α × β)} (h : (l.map Prod.fst).Nodup) :
    ((put k v l).map Prod.fst).Nodup := by
  rw [map_fst_put]
  by_cases hm : k ∈ l.map Prod.fst
  · simpa [hm] using h
  · rw [if_neg hm]
    refine List.nodup_append.2 ⟨h, by simp, ?_⟩
    intro a ha b hb
    have : b = k := by simpa using hb
    exact fun e => hm (this ▸ e ▸ ha)

theorem nodup_drop (k : α) {l : List (α × β)} (h : (l.map Prod.fst).Nodup) :
    ((drop k l).map Prod.fst).Nodup :=
  h.sublist (List.Sublist.map _ List.filter_sublist)

theorem find_put (k k' : α) (v : β) (l : List (α × β)) :
    find k' (put k v l) = if k = k' then some v else find k' l := by
  induction l with
  | nil => simp [put, find]
  | cons p rest ih =>
    obtain ⟨a, b⟩ := p
    by_cases h : a = k
    · subst h
      by_cases h' : a = k' <;> simp [put, find, h']
    · by_cases h' : k = k'
      · subst h'
        simp [put, find, h, ih]
      · by_cases h'' : a = k'
        · subst h''
          simp [put, find, h, h']
        · simp [put, find, h, h', h'', ih]

theorem find_drop (k k' : α) (l : List (α × β)) :
    find k' (drop k l) = if k = k' then none else find k' l := by
  induction l with
  | nil => simp [drop, find]
  | cons p rest ih =>
    obtain ⟨a, b⟩ := p
    by_cases h : a = k
    · have hd : drop k ((a, b) :: rest) = drop k rest := by simp [drop, h]
      rw [hd, ih]
      by_cases h' : k = k'
      · simp [h']
      · simp [find, h, h']
    · have hd : drop k ((a, b) :: rest) = (a, b) :: drop k rest := by simp [drop, h]
      rw [hd]
      by_cases h' : a = k'
      · subst h'
        simp [find, Ne.symm h]
      · simp [find, h', ih]

theorem mem_of_find {k : α} {v : β} {l : List (α × β)} (h : find k l = some v) :
    (k, v) ∈ l := by
  induction l with
  | nil => simp [find] at h
  | cons p rest ih =>
    obtain ⟨a, b⟩ := p
    by_cases ha : a = k
    · simp [find, ha] at h
      simp [ha, h]
    · simp [find, ha] at h
      exact List.mem_cons_of_mem _ (ih h)

theorem find_of_mem {k : α} {v : β} {l : List (α × β)} (hn : (l.map Prod.fst).Nodup)
    (h : (k, v) ∈ l) : find k l = some v := by
  induction l with
  | nil => simp at h
  | cons p rest ih =>
    obtain ⟨a, b⟩ := p
    simp only [List.map_cons, List.nodup_cons] at hn
    rcases List.mem_cons.1 h with e | hr
    · cases e
      simp [find]
    · have : a ≠ k := fun e => hn.1 (e ▸ List.mem_map_of_mem hr)
      simp [find, this, ih hn.2 hr]

end Entries

/-! ## Maps -/

/-- A finite map from `α` to `β`, listed in order of first insertion. -/
structure AssocMap (α β : Type) where
  entries : List (α × β)
  nodup : (entries.map Prod.fst).Nodup
  deriving Repr, DecidableEq

namespace AssocMap

variable {α β : Type}

/-- The map without keys. -/
def empty : AssocMap α β := ⟨[], List.nodup_nil⟩

instance : Inhabited (AssocMap α β) := ⟨empty⟩

/-- Number of keys. -/
def size (m : AssocMap α β) : Nat := m.entries.length

/-- The keys, oldest first. -/
def keys (m : AssocMap α β) : List α := m.entries.map Prod.fst

/-- The values, in the order of their keys. -/
def values (m : AssocMap α β) : List β := m.entries.map Prod.snd

variable [DecidableEq α]

/-- The value of `k`, if `k` is a key. -/
def get? (m : AssocMap α β) (k : α) : Option β := Entries.find k m.entries

/-- Whether `k` is a key. -/
def contains (m : AssocMap α β) (k : α) : Bool := (m.get? k).isSome

/-- Gives `k` the value `v`; a new key comes last. -/
def insert (m : AssocMap α β) (k : α) (v : β) : AssocMap α β :=
  ⟨Entries.put k v m.entries, Entries.nodup_put k v m.nodup⟩

/-- Forgets `k`. -/
def erase (m : AssocMap α β) (k : α) : AssocMap α β :=
  ⟨Entries.drop k m.entries, Entries.nodup_drop k m.nodup⟩

@[simp] theorem get?_empty (k : α) : (empty : AssocMap α β).get? k = none := rfl

theorem get?_insert (m : AssocMap α β) (k k' : α) (v : β) :
    (m.insert k v).get? k' = if k = k' then some v else m.get? k' :=
  Entries.find_put k k' v m.entries

theorem get?_erase (m : AssocMap α β) (k k' : α) :
    (m.erase k).get? k' = if k = k' then none else m.get? k' :=
  Entries.find_drop k k' m.entries

theorem mem_entries_iff (m : AssocMap α β) (k : α) (v : β) :
    (k, v) ∈ m.entries ↔ m.get? k = some v :=
  ⟨Entries.find_of_mem m.nodup, Entries.mem_of_find⟩

/-- Forgetting several keys one after the other. -/
theorem get?_foldl_erase (l : List α) (m : AssocMap α β) (k : α) :
    (l.foldl erase m).get? k = if k ∈ l then none else m.get? k := by
  induction l generalizing m with
  | nil => rfl
  | cons k' rest ih =>
    rw [List.foldl_cons, ih, get?_erase]
    by_cases hk : k = k'
    · simp [hk]
    · simp only [List.mem_cons, hk, Ne.symm hk, if_false, false_or]

end AssocMap

end Arcbase
