import Arcbase.Json.Reader
import Arcbase.Proofs.Json.Printing
import Mathlib.Data.List.TakeWhile
set_option autoImplicit false

/-!
# Readers of what is written

Integers are written as literals, and read as what they are by every reader in whose range
they are (`Reader.integer_ofInt`).  A binary number that is finite is read if its digits read
back (`Exact`), and one that is not finite is not read (`Reader.binary64_ofBinary`).
-/

namespace Arcbase.Json

/-! ## Digits -/

theorem valueOf_toDigits (n : Nat) : valueOf (Nat.toDigits 10 n) = n :=
  Nat.ofDigitChars_ten_toDigits

theorem isDigit_toDigits {n : Nat} {c : Char} (h : c ∈ Nat.toDigits 10 n) : c.isDigit = true :=
  Nat.isDigit_of_mem_toDigits (by decide) (by decide) h

/-- The first digit is no sign, and no zero but that of zero. -/
theorem exists_toDigits (n : Nat) :
    ∃ c cs, Nat.toDigits 10 n = c :: cs ∧ c ≠ '-' ∧ (0 < n → c ≠ '0') := by
  induction n using Nat.strongRecOn with
  | ind n ih =>
    rcases Nat.lt_or_ge n 10 with hlt | hge
    · have hall : ∀ n < 10, Nat.digitChar n ≠ '-' ∧ (0 < n → Nat.digitChar n ≠ '0') := by decide
      exact ⟨Nat.digitChar n, [], Nat.toDigits_of_lt_base hlt, hall n hlt⟩
    · have hpos : 0 < n / 10 := Nat.div_pos hge (by decide)
      obtain ⟨c, cs, hcons, hsign, hzero⟩ :=
        ih (n / 10) (Nat.div_lt_self (Nat.lt_of_lt_of_le (by decide) hge) (by decide))
      refine ⟨c, cs ++ [Nat.digitChar (n % 10)], ?_, hsign, fun _ => hzero hpos⟩
      rw [Nat.toDigits_of_base_le (by decide) hge, hcons, List.cons_append]

theorem whole?_toDigits (n : Nat) :
    whole? (Nat.toDigits 10 n) = some (Nat.toDigits 10 n, []) := by
  have hdigits : digits (Nat.toDigits 10 n) = (Nat.toDigits 10 n, []) := by
    rw [digits, List.takeWhile_eq_self_iff.2 fun _ => isDigit_toDigits,
      List.dropWhile_eq_nil_iff.2 fun _ => isDigit_toDigits]
  have hsome : digits? (Nat.toDigits 10 n) = some (Nat.toDigits 10 n, []) := by
    rw [digits?, hdigits]
    exact if_neg fun hempty => Nat.toDigits_ne_nil (List.isEmpty_iff.1 hempty)
  rw [whole?, hsome]
  refine if_neg fun hlong => ?_
  obtain ⟨hlength, hzero⟩ := hlong
  rcases Nat.eq_zero_or_pos n with rfl | hpos
  · exact absurd hlength (by decide)
  · obtain ⟨c, cs, hcons, _, hne⟩ := exists_toDigits n
    rw [hcons] at hzero
    exact hne hpos (Option.some.inj hzero)

theorem numberAfter?_toDigits (sign : List Char) (n : Nat) :
    numberAfter? sign (Nat.toDigits 10 n) = some (sign ++ Nat.toDigits 10 n, []) := by
  simp [numberAfter?, whole?_toDigits, fraction?, exponent?]

theorem literal_minus (n : Nat) : Literal ('-' :: Nat.toDigits 10 n) :=
  numberAfter?_toDigits ['-'] n

theorem literal_toDigits (n : Nat) : Literal (Nat.toDigits 10 n) := by
  have hread := numberAfter?_toDigits [] n
  obtain ⟨c, cs, hcons, hsign, _⟩ := exists_toDigits n
  rw [Literal, hcons, number?_of_ne hsign, ← hcons]
  exact hread

/-! ## Integers -/

theorem integerOf?_toDigits {n : Nat} (h : (n : Int) ≤ integerRange.2) :
    integerOf? (Nat.toDigits 10 n) = some (n : Int) := by
  have hall : (Nat.toDigits 10 n).all Char.isDigit = true :=
    List.all_eq_true.2 fun _ => isDigit_toDigits
  have hsign : unsignedText (Nat.toDigits 10 n) = (false, Nat.toDigits 10 n) := by
    obtain ⟨c, cs, hcons, hsign, _⟩ := exists_toDigits n
    rw [hcons]
    unfold unsignedText
    split
    next heq => exact absurd (List.cons.inj heq).1 hsign
    next => rfl
  have hlow : integerRange.1 ≤ (n : Int) := by
    simp only [integerRange]
    omega
  simp [integerOf?, hsign, hall, valueOf_toDigits, hlow, h]

theorem integerOf?_minus {n : Nat} (hpos : 0 < n) (h : integerRange.1 ≤ -(n : Int)) :
    integerOf? ('-' :: Nat.toDigits 10 n) = some (-(n : Int)) := by
  have hall : (Nat.toDigits 10 n).all Char.isDigit = true :=
    List.all_eq_true.2 fun _ => isDigit_toDigits
  have hhigh : -(n : Int) ≤ integerRange.2 := by
    simp only [integerRange]
    omega
  have hne : ¬ n = 0 := Nat.ne_of_gt hpos
  simp [integerOf?, unsignedText, hall, valueOf_toDigits, hhigh, h, hne]

theorem ofNat_eq (n : Nat) : ofNat n = .number (Nat.toDigits 10 n) :=
  congrArg Json.number Nat.toList_repr

theorem faithful_ofNat (n : Nat) : Faithful (.ofNat n) := by
  rw [ofNat_eq]
  exact literal_toDigits n

theorem ofInt_ofNat (n : Nat) : ofInt n = ofNat n := rfl

theorem ofInt_negSucc (n : Nat) :
    ofInt (Int.negSucc n) = .number ('-' :: Nat.toDigits 10 (n + 1)) := by
  refine congrArg Json.number ?_
  change ("-" ++ Nat.repr (n + 1)).toList = _
  rw [String.toList_append, Nat.toList_repr]
  rfl

theorem faithful_ofInt (i : Int) : Faithful (.ofInt i) := by
  cases i with
  | ofNat n => exact faithful_ofNat n
  | negSucc n =>
    rw [ofInt_negSucc]
    exact literal_minus (n + 1)

/-! ## Readers -/

namespace Reader

variable {low high : Int} {depth : Nat}

/-- An integer is read if it is in the range of the reader. -/
theorem integer_ofInt {i : Int} (hlow : low ≤ i) (hhigh : i ≤ high)
    (hmin : integerRange.1 ≤ i) (hmax : i ≤ integerRange.2) :
    integer low high depth (.ofInt i) = some i := by
  have hread : ∀ {digits}, integerOf? digits = some i →
      integer low high depth (.number digits) = some i := by
    intro digits hdigits
    simp [integer, hdigits, hlow, hhigh]
  cases i with
  | ofNat n =>
    rw [Int.ofNat_eq_natCast, ofInt_ofNat, ofNat_eq]
    exact hread (integerOf?_toDigits hmax)
  | negSucc n =>
    rw [ofInt_negSucc]
    exact hread (integerOf?_minus (Nat.succ_pos n) hmin)

theorem natural_ofNat {n bound : Nat} (h : n < bound) (hbound : bound ≤ UInt64.size) :
    natural bound depth (.ofNat n) = some n := by
  simp only [UInt64.size] at hbound
  have hread : integer 0 (bound - 1) depth (.ofInt n) = some (n : Int) := by
    refine integer_ofInt (by omega) (by omega) ?_ ?_ <;> simp only [integerRange] <;> omega
  rw [natural, ← ofInt_ofNat, hread]
  rfl

theorem uint8_ofNat (u : UInt8) : uint8 depth (.ofNat u.toNat) = some u := by
  rw [uint8, natural_ofNat u.toNat_lt (by decide), Option.map_some, UInt8.ofNat_toNat]

theorem uint32_ofNat (u : UInt32) : uint32 depth (.ofNat u.toNat) = some u := by
  rw [uint32, natural_ofNat u.toNat_lt (by decide), Option.map_some, UInt32.ofNat_toNat]

theorem int32_ofInt (i : Int32) : int32 depth (.ofInt i.toInt) = some i := by
  have hlow := i.le_toInt
  have hhigh := i.toInt_lt
  have hread : integer (-2147483648) 2147483647 depth (.ofInt i.toInt) = some i.toInt := by
    refine integer_ofInt (by omega) (by omega) ?_ ?_ <;> simp only [integerRange] <;> omega
  rw [int32, hread, Option.map_some, Int32.ofInt_toInt]

theorem int64_ofInt (i : Int64) : int64 depth (.ofInt i.toInt) = some i := by
  have hlow := i.le_toInt
  have hhigh := i.toInt_lt
  have hread : integer (-9223372036854775808) 9223372036854775807 depth (.ofInt i.toInt) =
      some i.toInt := by
    refine integer_ofInt (by omega) (by omega) ?_ ?_ <;> simp only [integerRange] <;> omega
  rw [int64, hread, Option.map_some, Int64.ofInt_toInt]

/-- The items of an array are read one container further down. -/
theorem list_array {α : Type} (r : Reader α) (items : List Json) :
    Reader.list r (depth + 1) (.array items) = items.mapM (r depth) := rfl

end Reader

/-! ## Lists -/

section Lists

variable {α β : Type}

/-- What is made of two parts that are read back each on a condition. -/
theorem bind_guarded {γ : Type} (p q : Bool) (x : α) (y : β) (f : α → β → γ) :
    ((if p then some x else none).bind fun a =>
        (if q then some y else none).bind fun b => some (f a b)) =
      if p && q then some (f x y) else none := by
  cases p <;> cases q <;> rfl

/-- A list is read back if all its items are. -/
theorem mapM_guarded {f : β → Option α} {g : α → β} {p : α → Bool} {l : List α}
    (h : ∀ x ∈ l, f (g x) = if p x then some x else none) :
    (l.map g).mapM f = if l.all p then some l else none := by
  induction l with
  | nil => rfl
  | cons x rest ih =>
    rw [List.map_cons, List.mapM_cons, h x List.mem_cons_self,
      ih fun y hy => h y (List.mem_cons_of_mem x hy), List.all_cons]
    exact bind_guarded (p x) (rest.all p) x rest List.cons

end Lists

/-! ## Records -/

section Records

variable {α : Type} {depth : Nat}

theorem knownMembers?_map {names : List String} (rest given : List (String × Json))
    (hknown : ∀ m ∈ rest, m.1 ∈ names) (hnodup : ((given ++ rest).map Prod.fst).Nodup) :
    knownMembers? names given (rest.map fun (name, value) => (some name, value)) =
      some (given ++ rest) := by
  induction rest generalizing given with
  | nil => rw [List.append_nil, List.map_nil, knownMembers?]
  | cons m rest ih =>
    obtain ⟨name, value⟩ := m
    have hin : names.contains name = true :=
      List.contains_iff_mem.2 (hknown _ List.mem_cons_self)
    have hnew : (given.any fun (n, _) => n == name) = false := by
      rw [List.map_append, List.nodup_append] at hnodup
      refine List.any_eq_false.2 fun p hp he => ?_
      exact hnodup.2.2 p.1 (List.mem_map_of_mem hp) name List.mem_cons_self (beq_iff_eq.1 he)
    have hsplit : given ++ (name, value) :: rest = given ++ [(name, value)] ++ rest := by
      rw [List.append_assoc, List.singleton_append]
    rw [List.map_cons, knownMembers?, hin, hnew, hsplit]
    exact ih (given ++ [(name, value)]) (fun m hm => hknown m (List.mem_cons_of_mem _ hm))
      (hsplit ▸ hnodup)

theorem ofJson?_record {names : List String} {members : List (String × Json)}
    (hnames : members.map Prod.fst = names) (hnodup : names.Nodup) :
    Members.ofJson? names (.record members) = some ⟨false, members⟩ := by
  subst hnames
  rw [record, Members.ofJson?,
    knownMembers?_map members [] (fun m hm => List.mem_map_of_mem hm) hnodup]
  rfl

namespace Reader

/-- A record is read from its members. -/
theorem record_record {names : List String} {members : List (String × Json)}
    (r : Nat → Members → Option α) (hnames : members.map Prod.fst = names)
    (hnodup : names.Nodup) :
    Reader.record names r (depth + 1) (.record members) = r depth ⟨false, members⟩ := by
  rw [Reader.record, ofJson?_record hnames hnodup, Option.bind_some]

theorem text_text (t : String) : text depth (.text t) = some t := rfl

theorem bool_bool (b : Bool) : bool depth (.bool b) = some b := rfl

/-- Null stands for nothing, if no value is written as null. -/
theorem nullable_orNull {r : Reader α} {f : α → Json} {p : α → Bool} {o : Option α}
    (hnull : ∀ a, f a ≠ .null) (h : ∀ a ∈ o, r depth (f a) = if p a then some a else none) :
    r.nullable depth (orNull f o) = if o.all p then some o else none := by
  cases o with
  | none => rfl
  | some a =>
    have hvalue : r.nullable depth (f a) = (r depth (f a)).map some := by
      cases hf : f a with
      | null => exact absurd hf (hnull a)
      | _ => rfl
    rw [orNull, hvalue, h a rfl, Option.all_some]
    split <;> rfl

end Reader

end Records

/-! ## Binary numbers -/

section Binary

variable {f : Binary.Format} {layout : Decimal.Layout} {x : Binary f} {depth : Nat}

/-- A binary number whose digits are a literal that reads back as the number. -/
structure Exact (layout : Decimal.Layout) (read : List Char → Option (Binary f)) (x : Binary f) :
    Prop where
  literal : Literal (layout.format x).toList
  value : read (layout.format x).toList = some x

theorem faithful_ofBinary {read : List Char → Option (Binary f)}
    (h : x.isFinite = true → Exact layout read x) : Faithful (.ofBinary layout x) := by
  rw [ofBinary]
  split
  next hfinite => exact (h hfinite).literal
  next => trivial

theorem Reader.binary64_ofBinary {x : Binary64}
    (h : x.isFinite = true → Exact layout binary64Of? x) :
    Reader.binary64 depth (.ofBinary layout x) = if x.isFinite then some x else none := by
  rw [ofBinary]
  split
  next hfinite => exact (h hfinite).value
  next => rfl

theorem Reader.binary32_ofBinary {x : Binary32}
    (h : x.isFinite = true → Exact layout binary32Of? x) :
    Reader.binary32 depth (.ofBinary layout x) = if x.isFinite then some x else none := by
  rw [ofBinary]
  split
  next hfinite => exact (h hfinite).value
  next => rfl

end Binary

/-! ## Tags -/

section Tags

variable {depth : Nat} {tag content : Json}

theorem tagged?_pair : tagged? depth (.record [("type", tag), ("value", content)]) =
    some ⟨.tagFirst, tag, some content⟩ := by
  simp [tagged?, record, knownMembers?]

theorem tagged?_single :
    tagged? depth (.record [("type", tag)]) = some ⟨.tagFirst, tag, none⟩ := by
  simp [tagged?, record, knownMembers?]

end Tags

end Arcbase.Json
