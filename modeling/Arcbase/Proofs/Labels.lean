import Arcbase.Labels
set_option autoImplicit false

/-!
# Labels and their codes

In a valid table labels and codes stand for each other (`LabelTable.Valid`).  Encoding a
label keeps a table valid, takes no code away from any label, and answers with a code that
stands for the label (`valid_encode`, `keeps_encode`, `decode?_of_encode`).
-/

namespace Arcbase

namespace LabelTable

variable {t : LabelTable} {label : String} {code : LabelCode}

/-- Labels and codes stand for each other. -/
def Valid (t : LabelTable) : Prop :=
  ∀ label code, t.lookup? label = some code ↔ t.decode? code = some label

/-- Every label of one table has its code in another one too. -/
def Keeps (t t' : LabelTable) : Prop :=
  ∀ code label, t.decode? code = some label → t'.decode? code = some label

theorem Keeps.refl (t : LabelTable) : t.Keeps t := fun _ _ h => h

theorem Keeps.trans {t' t'' : LabelTable} (h : t.Keeps t') (h' : t'.Keeps t'') : t.Keeps t'' :=
  fun code label hc => h' code label (h code label hc)

theorem valid_empty (capacity : Nat) : Valid { capacity } := by
  intro label code
  simp [lookup?, decode?]

theorem Valid.eq_of_decode? (h : t.Valid) {code' : LabelCode} (hc : t.decode? code = some label)
    (hc' : t.decode? code' = some label) : code = code' :=
  Option.some.inj (((h label code).2 hc).symm.trans ((h label code').2 hc'))

theorem lt_size_of_decode? (h : t.decode? code = some label) : code.toNat < t.size :=
  (Array.getElem?_eq_some_iff.1 h).1

/-- The table with one more label. -/
def add (t : LabelTable) (label : String) : LabelTable :=
  { t with
    labels := t.labels.push label
    codes := t.codes.insert label (UInt16.ofNat t.size) }

theorem lookup?_add (t : LabelTable) (label other : String) :
    (t.add label).lookup? other =
      if label = other then some (UInt16.ofNat t.size) else t.lookup? other := by
  simp [lookup?, add, Std.TreeMap.getElem?_insert]

theorem decode?_add (t : LabelTable) (label : String) (code : LabelCode) :
    (t.add label).decode? code = if code.toNat = t.size then some label else t.decode? code :=
  Array.getElem?_push

theorem keeps_add (t : LabelTable) (label : String) : t.Keeps (t.add label) := by
  intro code label' h
  rw [decode?_add, if_neg (Nat.ne_of_lt (lt_size_of_decode? h)), h]

theorem toNat_newCode (room : t.size < codeLimit) : (UInt16.ofNat t.size).toNat = t.size :=
  UInt16.toNat_ofNat_of_lt' room

theorem valid_add (h : t.Valid) (new : t.lookup? label = none) (room : t.size < codeLimit) :
    (t.add label).Valid := by
  intro other code
  rw [lookup?_add, decode?_add]
  have hcode : UInt16.ofNat t.size = code ↔ code.toNat = t.size := by
    rw [← UInt16.toNat_inj, toNat_newCode room, eq_comm]
  by_cases hc : code.toNat = t.size
  · rw [if_pos hc]
    by_cases hl : label = other
    · rw [if_pos hl, hcode.2 hc, hl]
      exact ⟨fun _ => rfl, fun _ => rfl⟩
    · have hnone : t.lookup? other ≠ some code := fun e =>
        Nat.ne_of_lt (lt_size_of_decode? ((h other code).1 e)) hc
      simp [hl, hnone]
  · rw [if_neg hc]
    by_cases hl : label = other
    · subst hl
      rw [if_pos rfl, ← h label code, new]
      simp [hcode, hc]
    · rw [if_neg hl]
      exact h other code

/-- A label is encoded by looking it up or by adding it. -/
theorem encode_cases (t : LabelTable) (label : String) :
    t.encode label = (t.lookup? label, t) ∨
      t.lookup? label = none ∧ t.size < codeLimit ∧
        t.encode label = (some (UInt16.ofNat t.size), t.add label) := by
  cases hfound : t.lookup? label with
  | some code => exact .inl (encode_of_lookup? hfound)
  | none =>
    rw [encode, hfound]
    by_cases hfull : t.isFull = true
    · exact .inl (if_pos hfull)
    · refine .inr ⟨rfl, ?_, if_neg hfull⟩
      simp only [isFull, Bool.or_eq_true, decide_eq_true_eq, not_or, Nat.not_le] at hfull
      exact hfull.2

theorem valid_encode (h : t.Valid) (label : String) : (t.encode label).2.Valid := by
  rcases encode_cases t label with he | ⟨hnew, hroom, he⟩
  · rw [he]
    exact h
  · rw [he]
    exact valid_add h hnew hroom

theorem keeps_encode (t : LabelTable) (label : String) : t.Keeps (t.encode label).2 := by
  rcases encode_cases t label with he | ⟨_, _, he⟩
  · rw [he]
    exact .refl t
  · rw [he]
    exact keeps_add t label

theorem decode?_of_encode (h : t.Valid) (he : (t.encode label).1 = some code) :
    (t.encode label).2.decode? code = some label := by
  rcases encode_cases t label with hfound | ⟨_, hroom, hadded⟩
  · rw [hfound] at he ⊢
    exact (h label code).1 he
  · rw [hadded] at he ⊢
    obtain rfl := Option.some.inj he
    rw [decode?_add, if_pos (toNat_newCode hroom)]

end LabelTable

namespace Labels

variable {l l' : Labels}

/-- Tables to which labels have been added. -/
inductive Grows (l : Labels) : Labels → Prop where
  | refl : Grows l l
  | relationship {l' : Labels} (before : Grows l l') (label : String) :
      Grows l (l'.encodeRelationship label).2
  | type {l' : Labels} (before : Grows l l') (label : String) : Grows l (l'.encodeType label).2

theorem Grows.trans {l'' : Labels} (h : l.Grows l') (h' : l'.Grows l'') : l.Grows l'' := by
  induction h' with
  | refl => exact h
  | relationship _ label ih => exact ih.relationship label
  | type _ label ih => exact ih.type label

theorem Grows.valid (h : l.Grows l') (hv : l.relationships.Valid) : l'.relationships.Valid := by
  induction h with
  | refl => exact hv
  | relationship _ label ih => exact LabelTable.valid_encode ih label
  | type _ _ ih => exact ih

theorem Grows.keeps (h : l.Grows l') : l.relationships.Keeps l'.relationships := by
  induction h with
  | refl => exact .refl _
  | relationship _ label ih => exact ih.trans (LabelTable.keeps_encode _ label)
  | type _ _ ih => exact ih

theorem Grows.types_valid (h : l.Grows l') (hv : l.types.Valid) : l'.types.Valid := by
  induction h with
  | refl => exact hv
  | relationship _ _ ih => exact ih
  | type _ label ih => exact LabelTable.valid_encode ih label

theorem Grows.types_keeps (h : l.Grows l') : l.types.Keeps l'.types := by
  induction h with
  | refl => exact .refl _
  | relationship _ _ ih => exact ih
  | type _ label ih => exact ih.trans (LabelTable.keeps_encode _ label)

theorem valid_withCapacity (relationships types : Nat) :
    (withCapacity relationships types).relationships.Valid := LabelTable.valid_empty relationships

/-- Labels and codes stand for each other in both tables. -/
structure Valid (l : Labels) : Prop where
  relationships : l.relationships.Valid
  types : l.types.Valid

theorem Valid.grows (h : l.Valid) (hg : l.Grows l') : l'.Valid :=
  ⟨hg.valid h.relationships, hg.types_valid h.types⟩

theorem valid_tables (relationships types : Nat) : (withCapacity relationships types).Valid :=
  ⟨LabelTable.valid_empty relationships, LabelTable.valid_empty types⟩

theorem encodeRelationship_of_lookup {label : String} {code : LabelCode}
    (h : l.relationships.lookup? label = some code) :
    l.encodeRelationship label = (.ok code, l) := by
  obtain ⟨relationships, types⟩ := l
  simp only [encodeRelationship, LabelTable.encode_of_lookup? h, Option.elim_some]

theorem Valid.decode_relationship (h : l.Valid) {label : String} {code : LabelCode}
    (hcode : (l.encodeRelationship label).1 = .ok code) :
    (l.encodeRelationship label).2.relationships.decode? code = some label := by
  refine LabelTable.decode?_of_encode h.relationships ?_
  simp only [encodeRelationship] at hcode
  cases hsome : (l.relationships.encode label).1 with
  | none =>
    rw [hsome] at hcode
    cases hcode
  | some c =>
    rw [hsome] at hcode
    exact congrArg some (Except.ok.inj hcode)

theorem Valid.decode_type (h : l.Valid) {label : String} {code : LabelCode}
    (hcode : (l.encodeType label).1 = .ok code) :
    (l.encodeType label).2.types.decode? code = some label := by
  refine LabelTable.decode?_of_encode h.types ?_
  simp only [encodeType] at hcode
  cases hsome : (l.types.encode label).1 with
  | none =>
    rw [hsome] at hcode
    cases hcode
  | some c =>
    rw [hsome] at hcode
    exact congrArg some (Except.ok.inj hcode)

end Labels

end Arcbase
