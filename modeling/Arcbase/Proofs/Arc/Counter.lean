import Arcbase.Proofs.Arc.Kind
set_option autoImplicit false

/-!
# Counters are exact

A counter is added to in floating point and then moved into its range.  A format has the integers
of no more bits than its significand has (`Format.units_wholeMagnitude`), and the sum of two of
them is rounded as the integer is (`HasIntegers.add`).  A summand that is too large to be exact
takes the sum out of the range, where all numbers count alike (`Counts`), as addition is monotone
(`order_add_mono`).  So a counter saturates as the integer does (`Counts.saturate`).
-/

namespace Arcbase

namespace Binary

namespace Format

variable {f : Format} {q shift n : Nat}

theorem nearest_mul (q : Nat) {d : Nat} (hd : 0 < d) : nearest (q * d) d = q := by
  simp [nearest, Nat.mul_div_cancel q hd, hd]

/-- What the fraction has room for is not rounded. -/
theorem units_roundUnits (hlow : f.binade ≤ q) (hhigh : q < 2 * f.binade) (hshift : 0 < shift)
    (hfinite : f.roundUnits (q * 2 ^ shift) 1 < f.infinity) :
    f.units (f.roundUnits (q * 2 ^ shift) 1) = q * 2 ^ shift := by
  have hb := binade_pos f
  have hbinade : f.binade = 2 ^ f.fractionBits := rfl
  have hpow : 0 < 2 ^ shift := Nat.pow_pos (by decide)
  have hlog : Nat.log2 (q * 2 ^ shift) = f.fractionBits + shift := by
    have hne : q * 2 ^ shift ≠ 0 := Nat.mul_ne_zero (by omega) (Nat.ne_of_gt hpow)
    refine (Nat.log2_eq_iff hne).2 ⟨?_, ?_⟩
    · rw [Nat.pow_add, ← hbinade]
      exact Nat.mul_le_mul_right _ hlow
    · rw [Nat.add_right_comm, Nat.pow_add, Nat.pow_succ', ← hbinade]
      exact Nat.mul_lt_mul_of_pos_right hhigh hpow
  have hround : f.roundUnits (q * 2 ^ shift) 1 = shift * f.binade + q := by
    have hmin : f.roundUnits (q * 2 ^ shift) 1 =
        min f.infinity (shift * f.binade + nearest (q * 2 ^ shift) (1 * 2 ^ shift)) := by
      unfold roundUnits
      dsimp only
      rw [Nat.div_one, hlog, Nat.add_sub_cancel_left]
      rfl
    rw [hmin] at hfinite ⊢
    rw [Nat.one_mul, nearest_mul q hpow] at hfinite ⊢
    omega
  have hsplit : shift * f.binade + q = f.binade * (shift + 1) + (q - f.binade) := by
    rw [Nat.mul_add, Nat.mul_comm shift]
    omega
  have hless : q - f.binade < f.binade := by omega
  have hlarge : ¬ f.binade * (shift + 1) + (q - f.binade) < 2 * f.binade := by
    have : f.binade * 2 ≤ f.binade * (shift + 1) := Nat.mul_le_mul_left _ (by omega)
    omega
  rw [hround, hsplit, units, if_neg hlarge, Nat.mul_add_mod, Nat.mod_eq_of_lt hless,
    Nat.mul_add_div hb, Nat.div_eq_of_lt hless, Nat.add_zero, Nat.add_sub_cancel,
    Nat.add_sub_cancel' hlow]
  rfl

/-- A whole number of no more bits than a significand has is exact, and so is the power of two
that comes next. -/
theorem units_wholeMagnitude (hn : n ≤ 2 * f.binade) (hroom : f.fractionBits < f.unitShift)
    (hfinite : wholeMagnitude f n < f.infinity) : f.units (wholeMagnitude f n) = n * f.one := by
  have hone : f.one = 2 ^ f.unitShift := rfl
  have hbinade : f.binade = 2 ^ f.fractionBits := rfl
  have hb := binade_pos f
  unfold wholeMagnitude at hfinite ⊢
  rcases Nat.eq_zero_or_pos n with rfl | hpos
  · simp [roundUnits, nearest, units, hb]
  rcases Nat.lt_or_eq_of_le hn with hlt | rfl
  · -- the number is shifted until its first bit is that of the significand
    obtain ⟨k, hk⟩ : ∃ k, f.fractionBits = Nat.log2 n + k := by
      have hlog : Nat.log2 n < f.fractionBits + 1 :=
        (Nat.log2_lt (by omega)).2 (by rwa [Nat.pow_succ', ← hbinade])
      exact Nat.exists_eq_add_of_le (by omega)
    obtain ⟨shift, hshift⟩ : ∃ shift, f.unitShift = k + shift :=
      Nat.exists_eq_add_of_le (by omega)
    have hunits : n * f.one = n * 2 ^ k * 2 ^ shift := by
      rw [hone, hshift, Nat.pow_add, Nat.mul_assoc]
    have hlow : f.binade ≤ n * 2 ^ k := by
      rw [hbinade, hk, Nat.pow_add]
      exact Nat.mul_le_mul_right _ (Nat.log2_self_le (by omega))
    have hhigh : n * 2 ^ k < 2 * f.binade := by
      rw [hbinade, hk, ← Nat.pow_succ', Nat.succ_eq_add_one, Nat.add_right_comm, Nat.pow_add]
      exact Nat.mul_lt_mul_of_pos_right Nat.lt_log2_self (Nat.pow_pos (by decide))
    rw [hunits] at hfinite ⊢
    exact units_roundUnits hlow hhigh (by omega) hfinite
  · have hunits : 2 * f.binade * f.one = f.binade * 2 ^ (f.unitShift + 1) := by
      rw [hone, Nat.pow_succ]
      ac_rfl
    rw [hunits] at hfinite ⊢
    exact units_roundUnits (Nat.le_refl _) (by omega) (Nat.succ_pos _) hfinite

end Format

variable {f : Format} {x y : Binary f}

/-! ## Order -/

theorem units_le_of_order_le (h : x.order ≤ y.order) : x.units ≤ y.units := by
  unfold order at h
  unfold units
  cases hx : x.negative <;> cases hy : y.negative <;>
    simp only [hx, hy, if_true, Bool.false_eq_true, if_false] at h ⊢
  · have := Format.units_mono f (by omega : x.magnitude ≤ y.magnitude)
    omega
  · -- both are zero
    have := Format.units_mono f (by omega : x.magnitude ≤ 0)
    have := Format.units_mono f (by omega : y.magnitude ≤ 0)
    have hzero : f.units 0 = 0 := Format.units_of_lt (by have := Format.binade_pos f; omega)
    omega
  · omega
  · have := Format.units_mono f (by omega : y.magnitude ≤ x.magnitude)
    omega

/-- A number of units rounds to a number of its sign. -/
theorem order_ofSignedUnits (zeroNegative : Bool) (n : Int) :
    (ofSignedUnits zeroNegative n 1 : Binary f).order =
      n.sign * (f.roundUnits n.natAbs 1 : Nat) := by
  unfold ofSignedUnits order
  by_cases hn : n = 0
  · obtain ⟨hm, _⟩ := magnitude_ofMagnitude (f := f) zeroNegative
      (Nat.pow_pos (by decide) : 0 < f.signWeight)
    rw [if_pos hn, hm, hn]
    simp
  · obtain ⟨hm, hs⟩ := magnitude_ofUnits (f := f) (n < 0) n.natAbs 1
    rw [if_neg hn, hm, hs]
    rcases Int.lt_or_gt_of_ne hn with hneg | hpos
    · rw [if_pos (decide_eq_true hneg), Int.sign_eq_neg_one_of_neg hneg]
      omega
    · rw [if_neg (by simpa using Int.le_of_lt hpos), Int.sign_eq_one_of_pos hpos]
      omega

/-- The larger a number of units, the larger the number that it rounds to. -/
theorem order_ofSignedUnits_mono (a b : Bool) {m n : Int} (h : m ≤ n) :
    (ofSignedUnits a m 1 : Binary f).order ≤ (ofSignedUnits b n 1 : Binary f).order := by
  rw [order_ofSignedUnits, order_ofSignedUnits]
  rcases Int.lt_trichotomy m 0 with hm | rfl | hm
  · rcases Int.lt_trichotomy n 0 with hn | rfl | hn
    · have hmono : f.roundUnits n.natAbs 1 ≤ f.roundUnits m.natAbs 1 :=
        Format.roundUnits_mono f (by omega)
      rw [Int.sign_eq_neg_one_of_neg hm, Int.sign_eq_neg_one_of_neg hn]
      omega
    · rw [Int.sign_eq_neg_one_of_neg hm, Int.sign_zero]
      omega
    · rw [Int.sign_eq_neg_one_of_neg hm, Int.sign_eq_one_of_pos hn]
      omega
  · rcases Int.lt_or_eq_of_le h with hn | rfl
    · rw [Int.sign_zero, Int.sign_eq_one_of_pos hn]
      omega
    · exact Int.le_refl _
  · have hmono : f.roundUnits m.natAbs 1 ≤ f.roundUnits n.natAbs 1 :=
      Format.roundUnits_mono f (by omega)
    rw [Int.sign_eq_one_of_pos hm, Int.sign_eq_one_of_pos (by omega : 0 < n)]
    omega

theorem add_of_isFinite {u : Binary f} (hu : u.isFinite = true) (hx : x.isFinite = true) :
    u.add x = ofSignedUnits (u.negative && x.negative) (u.units + x.units) 1 := by
  simp [add, unlessNaN, not_isNaN_of_isFinite hu, not_isNaN_of_isFinite hx, hu, hx]

theorem isNaN_ofSignedUnits (zeroNegative : Bool) (n : Int) :
    (ofSignedUnits zeroNegative n 1 : Binary f).isNaN = false := by
  refine decide_eq_false (Nat.not_lt.2 ?_)
  unfold ofSignedUnits
  by_cases hn : n = 0
  · rw [if_pos hn, (magnitude_ofMagnitude zeroNegative (Nat.pow_pos (by decide))).1]
    exact Nat.zero_le _
  · rw [if_neg hn, (magnitude_ofUnits (n < 0) n.natAbs 1).1]
    exact Format.roundUnits_le_infinity ..

/-- A greater summand makes a sum no smaller. -/
theorem order_add_mono {u : Binary f} (hu : u.isFinite = true) (hx : x.isFinite = true)
    (hy : y.isFinite = true) (h : x.order ≤ y.order) : (u.add x).order ≤ (u.add y).order := by
  rw [add_of_isFinite hu hx, add_of_isFinite hu hy]
  have := units_le_of_order_le h
  exact order_ofSignedUnits_mono _ _ (by omega)

/-! ## Whole numbers -/

/-- The format has the integers up to a bound, and no number is lost among them. -/
structure HasIntegers (f : Format) (bound : Nat) : Prop where
  significand : bound ≤ 2 * f.binade
  room : f.fractionBits < f.unitShift
  finite : wholeMagnitude f bound < f.infinity

theorem hasIntegers_double : HasIntegers Format.double 9007199254740992 := by
  constructor <;> decide +kernel

section HasIntegers

variable {bound : Nat} (h : HasIntegers f bound) {i j : Int}
include h

theorem HasIntegers.isFinite (hi : i.natAbs ≤ bound) : (ofInt i : Binary f).isFinite = true := by
  refine isFinite_of_lt ?_
  rw [(magnitude_ofInt i).1]
  exact (wholeMagnitude_mono f hi).trans_lt h.finite

theorem HasIntegers.units_magnitude (hi : i.natAbs ≤ bound) :
    f.units (ofInt i : Binary f).magnitude = i.natAbs * f.one := by
  rw [(magnitude_ofInt i).1]
  exact Format.units_wholeMagnitude (hi.trans h.significand) h.room
    ((wholeMagnitude_mono f hi).trans_lt h.finite)

theorem HasIntegers.units (hi : i.natAbs ≤ bound) : (ofInt i : Binary f).units = i * f.one := by
  rw [Binary.units, (magnitude_ofInt i).2, h.units_magnitude hi]
  by_cases hneg : i < 0
  · rw [if_pos (decide_eq_true hneg), Int.natCast_mul, ← Int.neg_mul]
    congr 1
    omega
  · rw [if_neg (by simpa using hneg), Int.natCast_mul]
    congr 1
    omega

theorem HasIntegers.truncate (hi : i.natAbs ≤ bound) : (ofInt i : Binary f).truncate = i := by
  have hone : 0 < f.one := Nat.pow_pos (by decide)
  rw [Binary.truncate, (magnitude_ofInt i).2, h.units_magnitude hi, Nat.mul_div_cancel _ hone]
  by_cases hneg : i < 0
  · simp only [hneg, decide_true, if_true]
    omega
  · simp only [hneg, decide_false, Bool.false_eq_true, if_false]
    omega

/-- Sums of integers that the format has are rounded once at most. -/
theorem HasIntegers.add (hi : i.natAbs ≤ bound) (hj : j.natAbs ≤ bound) :
    (ofInt i : Binary f).add (ofInt j) = ofInt (i + j) := by
  have hx := h.isFinite hi
  have hy := h.isFinite hj
  have hsum : (ofInt i : Binary f).units + (ofInt j : Binary f).units = (i + j) * f.one := by
    rw [h.units hi, h.units hj, Int.add_mul]
  have hone : (f.one : Int) ≠ 0 := by
    have : 0 < f.one := Nat.pow_pos (by decide)
    omega
  rw [add_of_isFinite hx hy, hsum]
  unfold ofInt ofSignedUnits
  by_cases hzero : i + j = 0
  · -- not both are negative
    have hsign : ((ofInt i : Binary f).negative && (ofInt j : Binary f).negative) = false := by
      rw [(magnitude_ofInt i).2, (magnitude_ofInt j).2]
      simp only [Bool.and_eq_false_iff, decide_eq_false_iff_not]
      omega
    unfold ofInt ofSignedUnits at hsign
    rw [hzero, Int.zero_mul, if_pos rfl, if_pos rfl, hsign]
  · rw [if_neg (Int.mul_ne_zero hzero hone), if_neg (Int.mul_ne_zero hzero hone)]

end HasIntegers

end Binary

/-! ## Counters -/

namespace ArcKind

open Binary (Format hasIntegers_double)

/-- An integer moved into the range of counters. -/
def clampCount (n : Int) : Int := max 0 (min 4294967295 n)

/-- A number stands for an integer as far as a counter can tell: beyond the ends of the range
any number will do that lies there too. -/
structure Counts (x : Binary64) (n : Int) : Prop where
  number : x.isNaN = false
  low : n < 0 → x.order < 0
  inside : 0 ≤ n → n ≤ 4294967295 → x = .ofInt n
  high : 4294967295 < n → (Binary.ofInt 4294967295 : Binary64).order < x.order

/-- How the numbers at the two ends of the range lie. -/
theorem order_ends : (Binary.ofInt (-1) : Binary64).order < 0 ∧
    (Binary.ofInt 0 : Binary64).order = 0 ∧
      (Binary.ofInt 4294967295 : Binary64).order < (Binary.ofInt 4294967296 : Binary64).order := by
  decide +kernel

theorem order_ofInt_of_neg {n : Int} (h : n < 0) : (Binary.ofInt n : Binary64).order < 0 :=
  Int.lt_of_le_of_lt (Binary.order_ofInt_mono (by omega)) order_ends.1

theorem lt_order_ofInt {n : Int} (h : 4294967295 < n) :
    (Binary.ofInt 4294967295 : Binary64).order < (Binary.ofInt n : Binary64).order :=
  Int.lt_of_lt_of_le order_ends.2.2 (Binary.order_ofInt_mono (by omega))

theorem counts_ofInt (n : Int) : Counts (.ofInt n) n :=
  ⟨Binary.isNaN_ofSignedUnits _ _, order_ofInt_of_neg, fun _ _ => rfl, lt_order_ofInt⟩

/-- What is added to a count may be too large to be exact, but then the sum is out of range. -/
theorem counts_add (u : UInt32) {d : Int} (hd : (Binary.ofInt d : Binary64).isFinite = true) :
    Counts ((Binary.ofInt u.toNat : Binary64).add (.ofInt d)) (u.toNat + d) := by
  have hu : u.toNat < 4294967296 := u.toNat_lt
  have hints := hasIntegers_double
  have hunsigned : (u.toNat : Int).natAbs ≤ 9007199254740992 := by omega
  have hfinite := hints.isFinite hunsigned
  by_cases hsmall : d.natAbs ≤ 9007199254740992
  · rw [hints.add hunsigned hsmall]
    exact counts_ofInt _
  have hnumber : ((Binary.ofInt u.toNat : Binary64).add (.ofInt d)).isNaN = false := by
    rw [Binary.add_of_isFinite hfinite hd]
    exact Binary.isNaN_ofSignedUnits _ _
  rcases Int.lt_or_gt_of_ne (by omega : d ≠ 0) with hneg | hpos
  · have hbound : (-9007199254740992 : Int).natAbs ≤ 9007199254740992 := by decide
    have hle := Binary.order_add_mono hfinite hd (hints.isFinite hbound)
      (Binary.order_ofInt_mono (by omega : d ≤ -9007199254740992))
    rw [hints.add hunsigned hbound] at hle
    refine ⟨hnumber, fun _ => ?_, by omega, by omega⟩
    exact Int.lt_of_le_of_lt hle (order_ofInt_of_neg (by omega))
  · have hbound : (9007199254740992 : Int).natAbs ≤ 9007199254740992 := by decide
    have hle := Binary.order_add_mono hfinite (hints.isFinite hbound) hd
      (Binary.order_ofInt_mono (by omega : 9007199254740992 ≤ d))
    rw [hints.add hunsigned hbound] at hle
    refine ⟨hnumber, by omega, by omega, fun _ => ?_⟩
    exact Int.lt_of_lt_of_le (lt_order_ofInt (by omega)) hle

theorem store_counter {n : Int} (hlow : 0 ≤ n) (hhigh : n ≤ 4294967295) :
    counter.store (.ofInt n) = .unsigned (UInt32.ofNat n.toNat) := by
  have hints := hasIntegers_double
  have hn : n.natAbs ≤ 9007199254740992 := by omega
  have hclamped : (Binary.ofInt n : Binary64).toIntClamped 0 4294967295 = n := by
    have hnumber : (Binary.ofInt n : Binary64).isNaN = false := Binary.isNaN_ofSignedUnits _ _
    rw [Binary.toIntClamped, hnumber, hints.isFinite hn, hints.truncate hn]
    simp only [Bool.false_eq_true, if_false, if_true]
    omega
  simp only [store, hclamped]

/-- A counter saturates as the integer does. -/
theorem Counts.saturate {x : Binary64} {n : Int} (h : Counts x n) :
    counter.saturate x = .unsigned (UInt32.ofNat (clampCount n).toNat) := by
  have hbounds : counter.bounds = (.ofInt 0, .ofInt 4294967295) := by
    rw [Binary.ofInt_zero]
    rfl
  have hzero := order_ends.2.1
  have hends : (Binary.ofInt 0 : Binary64).isNaN = false ∧
      (Binary.ofInt 4294967295 : Binary64).isNaN = false :=
    ⟨Binary.isNaN_ofSignedUnits _ _, Binary.isNaN_ofSignedUnits _ _⟩
  have hclamp : counter.clamp x = .ofInt (clampCount n) := by
    simp only [clamp, hbounds, h.number, Binary.lt, hends.1, hends.2, hzero, Bool.not_false,
      Bool.true_and, Bool.false_eq_true, if_false, decide_eq_true_eq]
    unfold clampCount
    by_cases hneg : n < 0
    · rw [if_pos (h.low hneg), show max 0 (min 4294967295 n) = 0 by omega]
    · by_cases hover : 4294967295 < n
      · have hlarge := h.high hover
        have hpos : (0 : Int) ≤ (Binary.ofInt 4294967295 : Binary64).order :=
          hzero ▸ Binary.order_ofInt_mono (by omega)
        rw [if_neg (by omega), if_pos hlarge, show max 0 (min 4294967295 n) = 4294967295 by omega]
      · have hx := h.inside (by omega) (by omega)
        have hlow : (Binary.ofInt 0 : Binary64).order ≤ (Binary.ofInt n : Binary64).order :=
          Binary.order_ofInt_mono (by omega)
        have hhigh : (Binary.ofInt n : Binary64).order ≤
            (Binary.ofInt 4294967295 : Binary64).order := Binary.order_ofInt_mono (by omega)
        rw [hx, if_neg (by omega), if_neg (by omega), show max 0 (min 4294967295 n) = n by omega]
  rw [ArcKind.saturate, hclamp]
  exact store_counter (by unfold clampCount; omega) (by unfold clampCount; omega)

end ArcKind

end Arcbase
