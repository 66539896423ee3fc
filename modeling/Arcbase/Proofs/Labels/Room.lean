import Arcbase.Proofs.Labels
import Mathlib.Data.List.Nodup
import Mathlib.Data.List.Perm.Subperm
set_option autoImplicit false

/-!
# Room for labels

A table *suits* another one if it has at least that capacity, and no labels of its own that
would take the room.  All labels of the other table fit in then, in any order
(`encode_of_suits`).
-/

namespace Arcbase

namespace LabelTable

variable {t source : LabelTable} {label : String} {code : LabelCode}

/-- A table that has no more labels than fit in it. -/
structure Sized (t : LabelTable) : Prop where
  capacity : t.size ≤ t.capacity
  codes : t.size ≤ codeLimit

theorem sized_empty (capacity : Nat) : Sized { capacity } :=
  ⟨Nat.zero_le _, Nat.zero_le _⟩

theorem size_add (t : LabelTable) (label : String) : (t.add label).size = t.size + 1 :=
  Array.size_push label

theorem sized_encode (h : t.Sized) (label : String) : (t.encode label).2.Sized := by
  unfold encode
  split
  next => exact h
  next =>
    split
    next => exact h
    next hfull =>
      simp only [isFull, Bool.or_eq_true, decide_eq_true_eq, not_or, Nat.not_le] at hfull
      have hsized : (t.add label).Sized :=
        ⟨size_add t label ▸ hfull.1, size_add t label ▸ hfull.2⟩
      exact hsized

theorem mem_labels_iff (h : t.Valid) (hs : t.Sized) :
    label ∈ t.labels.toList ↔ ∃ code, t.lookup? label = some code := by
  simp only [h label, decode?, Array.mem_toList_iff, Array.mem_iff_getElem?]
  constructor
  · rintro ⟨k, hk⟩
    have hlt : k < t.size := (Array.getElem?_eq_some_iff.1 hk).1
    refine ⟨UInt16.ofNat k, ?_⟩
    rw [UInt16.toNat_ofNat_of_lt' (Nat.lt_of_lt_of_le hlt hs.codes), hk]
  · rintro ⟨code, hcode⟩
    exact ⟨_, hcode⟩

theorem nodup_labels (h : t.Valid) (hs : t.Sized) : t.labels.toList.Nodup := by
  have hcode : ∀ k, (hk : k < t.labels.toList.length) →
      t.lookup? t.labels.toList[k] = some (UInt16.ofNat k) := by
    intro k hk
    have hlt : k < t.size := by simpa [size] using hk
    rw [h, decode?, UInt16.toNat_ofNat_of_lt' (Nat.lt_of_lt_of_le hlt hs.codes)]
    simp
  refine List.nodup_iff_injective_get.2 fun i j hij => Fin.ext ?_
  have hsame := (hcode i i.2).symm.trans ((congrArg t.lookup? hij).trans (hcode j j.2))
  have hlt : ∀ k : Fin t.labels.toList.length, (k : Nat) < UInt16.size := fun k =>
    Nat.lt_of_lt_of_le (Nat.lt_of_lt_of_eq k.2 Array.length_toList) hs.codes
  have hnat := congrArg UInt16.toNat (Option.some.inj hsame)
  rwa [UInt16.toNat_ofNat_of_lt' (hlt i), UInt16.toNat_ofNat_of_lt' (hlt j)] at hnat

/-- The labels that another table has not. -/
def foreign (t source : LabelTable) : List String :=
  t.labels.toList.filter fun label => (source.lookup? label).isNone

/-- A table as large as another one; if it has labels that the other one has not, then all
labels of the other one fit in besides those. -/
structure Suits (t source : LabelTable) : Prop where
  capacity : source.capacity ≤ t.capacity
  room : t.foreign source ≠ [] → source.size + (t.foreign source).length ≤ min t.capacity codeLimit

/-- A table without labels need only be as large. -/
theorem suits_empty {capacity : Nat} (h : source.capacity ≤ capacity) :
    Suits { capacity } source :=
  ⟨h, fun hforeign => absurd rfl hforeign⟩

section Suits

variable (hv : t.Valid) (hs : t.Sized) (hsource : source.Valid) (hsized : source.Sized)
include hv hs hsource hsized

/-- Where a label is missing, the labels that are there are fewer than those to come. -/
theorem size_lt_of_missing (hnew : t.lookup? label = none)
    (hknown : source.lookup? label = some code) :
    t.size < source.size + (t.foreign source).length := by
  have hnodup := nodup_labels hv hs
  have hshared : (label :: t.labels.toList.filter fun l => (source.lookup? l).isSome) ⊆
      source.labels.toList := by
    intro other hother
    rw [mem_labels_iff hsource hsized]
    rcases List.mem_cons.1 hother with rfl | hm
    · exact ⟨code, hknown⟩
    · rw [List.mem_filter, Option.isSome_iff_exists] at hm
      exact hm.2
  have hnot : label ∉ t.labels.toList.filter fun l => (source.lookup? l).isSome := by
    intro hm
    obtain ⟨c, hc⟩ := (mem_labels_iff hv hs).1 (List.mem_of_mem_filter hm)
    rw [hnew] at hc
    cases hc
  have hlength := (List.subperm_of_subset
    (List.nodup_cons.2 ⟨hnot, hnodup.filter _⟩) hshared).length_le
  have hsplit := List.length_eq_length_filter_add (l := t.labels.toList)
    fun l => (source.lookup? l).isSome
  simp only [Option.not_isSome] at hsplit
  have hsize : ∀ t : LabelTable, t.labels.toList.length = t.size := fun _ => Array.length_toList
  rw [List.length_cons, hsize] at hlength
  rw [hsize] at hsplit
  rw [foreign]
  omega

/-- A label of a table can be encoded by one that suits it, which still does then. -/
theorem encode_of_suits (h : t.Suits source) (hknown : source.lookup? label = some code) :
    (∃ code', (t.encode label).1 = some code') ∧ (t.encode label).2.Suits source := by
  cases hfound : t.lookup? label with
  | some found =>
    rw [encode_of_lookup? hfound]
    exact ⟨⟨found, rfl⟩, h⟩
  | none =>
    have hlt := size_lt_of_missing hv hs hsource hsized hfound hknown
    have hroom : t.size < t.capacity ∧ t.size < codeLimit := by
      by_cases hforeign : t.foreign source = []
      · rw [hforeign, List.length_nil, Nat.add_zero] at hlt
        exact ⟨Nat.lt_of_lt_of_le hlt (Nat.le_trans hsized.capacity h.capacity),
          Nat.lt_of_lt_of_le hlt hsized.codes⟩
      · have hle := Nat.le_min.1 (h.room hforeign)
        exact ⟨Nat.lt_of_lt_of_le hlt hle.1, Nat.lt_of_lt_of_le hlt hle.2⟩
    have hfull : t.isFull = false := by
      simp only [isFull, Bool.or_eq_false_iff, decide_eq_false_iff_not, Nat.not_le]
      exact hroom
    have hadd : t.encode label = (some (UInt16.ofNat t.size), t.add label) := by
      rw [encode, hfound]
      simp only [hfull, Bool.false_eq_true, if_false]
      rfl
    have hsame : (t.add label).foreign source = t.foreign source := by
      simp [foreign, add, hknown]
    rw [hadd]
    refine ⟨⟨_, rfl⟩, h.capacity, ?_⟩
    rw [hsame]
    exact h.room

end Suits

end LabelTable

namespace Labels

variable {l l' source : Labels}

/-- Tables that have no more labels than fit in them. -/
structure Sized (l : Labels) : Prop where
  relationships : l.relationships.Sized
  types : l.types.Sized

theorem sized_withCapacity (relationships types : Nat) :
    (withCapacity relationships types).Sized :=
  ⟨LabelTable.sized_empty relationships, LabelTable.sized_empty types⟩

theorem Sized.grows (h : l.Sized) (hg : l.Grows l') : l'.Sized := by
  induction hg with
  | refl => exact h
  | relationship _ label ih => exact ⟨LabelTable.sized_encode ih.relationships label, ih.types⟩
  | type _ label ih => exact ⟨ih.relationships, LabelTable.sized_encode ih.types label⟩

/-- Tables that suit others. -/
structure Suits (l source : Labels) : Prop where
  relationships : l.relationships.Suits source.relationships
  types : l.types.Suits source.types

theorem suits_withCapacity {relationships types : Nat}
    (hrelationships : source.relationships.capacity ≤ relationships)
    (htypes : source.types.capacity ≤ types) : (withCapacity relationships types).Suits source :=
  ⟨LabelTable.suits_empty hrelationships, LabelTable.suits_empty htypes⟩

section Suits

variable (hv : l.Valid) (hs : l.Sized) (hsource : source.Valid) (hsized : source.Sized)
  (h : l.Suits source) {label : String} {code : LabelCode}
include hv hs hsource hsized h

theorem encodeRelationship_of_suits (hknown : source.relationships.lookup? label = some code) :
    (∃ code', (l.encodeRelationship label).1 = .ok code') ∧
      (l.encodeRelationship label).2.Suits source := by
  obtain ⟨⟨code', hcode⟩, hsuits⟩ := LabelTable.encode_of_suits hv.relationships hs.relationships
    hsource.relationships hsized.relationships h.relationships hknown
  refine ⟨⟨code', ?_⟩, hsuits, h.types⟩
  simp only [encodeRelationship, hcode]
  rfl

theorem encodeType_of_suits (hknown : source.types.lookup? label = some code) :
    (∃ code', (l.encodeType label).1 = .ok code') ∧ (l.encodeType label).2.Suits source := by
  obtain ⟨⟨code', hcode⟩, hsuits⟩ := LabelTable.encode_of_suits hv.types hs.types
    hsource.types hsized.types h.types hknown
  refine ⟨⟨code', ?_⟩, h.relationships, hsuits⟩
  simp only [encodeType, hcode]
  rfl

end Suits

end Labels

end Arcbase
