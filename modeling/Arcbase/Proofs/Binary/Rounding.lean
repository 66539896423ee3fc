import Arcbase.Binary.Number
import Mathlib.Order.MinMax
import Mathlib.Tactic.ByContra
import Mathlib.Tactic.Ring
set_option autoImplicit false

/-!
# Rounding keeps the order

The larger a quotient of units, the larger the magnitude it rounds to
(`roundUnits_mono`), and the larger a magnitude, the more units it stands for
(`units_mono`).  So a number that lies between two numbers which another format has
exactly is rounded into that format to a number between the two
(`order_convert_convert`), and integers keep their order (`order_ofInt_mono`).
-/

namespace Arcbase.Binary

namespace Format

variable {m n den : Nat}

/-! ## The nearest natural -/

theorem div_le_nearest (m den : Nat) : m / den ≤ nearest m den := by
  unfold nearest
  dsimp only
  split
  · exact Nat.le_refl _
  · split
    · exact Nat.le_succ _
    · split
      · exact Nat.le_refl _
      · exact Nat.le_succ _

theorem nearest_le_succ (m den : Nat) : nearest m den ≤ m / den + 1 := by
  unfold nearest
  dsimp only
  split
  · exact Nat.le_succ _
  · split
    · exact Nat.le_refl _
    · split
      · exact Nat.le_succ _
      · exact Nat.le_refl _

theorem nearest_mono (h : m ≤ n) : nearest m den ≤ nearest n den := by
  rcases Nat.lt_or_eq_of_le (Nat.div_le_div_right h : m / den ≤ n / den) with hlt | heq
  · exact (nearest_le_succ m den).trans (hlt.trans_le (div_le_nearest n den))
  · -- the quotients are the same, so it is the remainders that decide
    have hm := Nat.div_add_mod m den
    have hn := Nat.div_add_mod n den
    have hmod : m % den ≤ n % den := by
      rw [heq] at hm
      omega
    unfold nearest
    dsimp only
    rw [heq]
    split
    · split
      · exact Nat.le_refl _
      · split
        · exact Nat.le_succ _
        · split
          · exact Nat.le_refl _
          · exact Nat.le_succ _
    · split
      · rw [if_neg (by omega), if_pos (by omega)]
      · split
        · split
          · omega
          · split
            · exact Nat.le_succ _
            · exact Nat.le_refl _
        · rw [if_neg (by omega)]
          split <;> exact Nat.le_refl _

/-! ## Magnitudes -/

variable {f : Format}

theorem binade_pos (f : Format) : 0 < f.binade := Nat.pow_pos (by decide)

theorem infinity_lt_signWeight (f : Format) : f.infinity < f.signWeight := by
  have hpow : 0 < Nat.pow 2 f.exponentBits := Nat.pow_pos (by decide)
  have hsplit : f.signWeight = Nat.pow 2 f.exponentBits * f.binade := by
    rw [signWeight, binade, Nat.add_comm]
    exact Nat.pow_add 2 f.exponentBits f.fractionBits
  rw [hsplit, infinity]
  exact Nat.mul_lt_mul_of_pos_right (Nat.sub_lt hpow Nat.one_pos) (binade_pos f)

/-- The binade of a magnitude that is rounded to under a shift. -/
theorem nearest_lt_binades {shift : Nat} (h : Nat.log2 (m / den) ≤ shift + f.fractionBits) :
    nearest m (den * Nat.pow 2 shift) ≤ 2 * f.binade := by
  have hlt : m / den < 2 ^ (shift + f.fractionBits + 1) :=
    Nat.lt_log2_self.trans_le (Nat.pow_le_pow_right (by decide) (Nat.succ_le_succ h))
  have hsplit : 2 ^ (shift + f.fractionBits + 1) = 2 * f.binade * 2 ^ shift := by
    have hb : f.binade = 2 ^ f.fractionBits := rfl
    rw [hb, Nat.pow_succ, Nat.pow_add]
    ac_rfl
  have hdiv : m / (den * Nat.pow 2 shift) < 2 * f.binade := by
    rw [← Nat.div_div_eq_div_mul]
    exact Nat.div_lt_of_lt_mul (by rw [Nat.mul_comm]; exact hsplit ▸ hlt)
  exact (nearest_le_succ _ _).trans hdiv

theorem binade_le_nearest {shift : Nat} (h : 2 ^ (shift + f.fractionBits) ≤ n / den) :
    f.binade ≤ nearest n (den * Nat.pow 2 shift) := by
  refine le_trans ?_ (div_le_nearest _ _)
  rw [← Nat.div_div_eq_div_mul]
  refine (Nat.le_div_iff_mul_le (Nat.pow_pos (by decide))).2 (le_trans (Nat.le_of_eq ?_) h)
  rw [Nat.pow_add, Nat.mul_comm]
  rfl

theorem roundUnits_mono (f : Format) (h : m ≤ n) : f.roundUnits m den ≤ f.roundUnits n den := by
  have hq : m / den ≤ n / den := Nat.div_le_div_right h
  have hlog : Nat.log2 (m / den) ≤ Nat.log2 (n / den) := by
    by_cases hm : m / den = 0
    · rw [hm]
      exact Nat.zero_le _
    · have hn : n / den ≠ 0 := fun e => hm (Nat.le_zero.1 (e ▸ hq))
      exact (Nat.le_log2 hn).2 ((Nat.log2_self_le hm).trans hq)
  unfold roundUnits
  dsimp only
  generalize hs : Nat.log2 (m / den) - f.fractionBits = s
  generalize hs' : Nat.log2 (n / den) - f.fractionBits = s'
  have hle : s ≤ s' := by omega
  refine min_le_min (Nat.le_refl _) ?_
  rcases Nat.lt_or_eq_of_le hle with hlt | rfl
  · -- one binade is left for a higher one
    have hn : n / den ≠ 0 := by
      intro e
      rw [e] at hs'
      have hzero : Nat.log2 0 = 0 := by decide
      omega
    have hlow : nearest m (den * Nat.pow 2 s) ≤ 2 * f.binade := nearest_lt_binades (by omega)
    have hexp : s' + f.fractionBits = Nat.log2 (n / den) := by omega
    have hhigh : f.binade ≤ nearest n (den * Nat.pow 2 s') :=
      binade_le_nearest (hexp ▸ Nat.log2_self_le hn)
    calc s * f.binade + nearest m (den * Nat.pow 2 s)
        ≤ s * f.binade + 2 * f.binade := Nat.add_le_add_left hlow _
      _ = (s + 1) * f.binade + f.binade := by ring
      _ ≤ s' * f.binade + f.binade :=
          Nat.add_le_add_right (Nat.mul_le_mul_right _ hlt) _
      _ ≤ s' * f.binade + nearest n (den * Nat.pow 2 s') := Nat.add_le_add_left hhigh _
  · exact Nat.add_le_add_left (nearest_mono h) _

theorem units_mono (f : Format) (h : m ≤ n) : f.units m ≤ f.units n := by
  have hb := binade_pos f
  unfold units
  by_cases hn : n < 2 * f.binade
  · rw [if_pos hn, if_pos (by omega)]
    exact h
  · have hn2 : 2 ≤ n / f.binade := (Nat.le_div_iff_mul_le hb).2 (by omega)
    have hhalf : ∀ e, 2 ≤ e → Nat.pow 2 (e - 1) = 2 * Nat.pow 2 (e - 2) := by
      intro e he
      obtain ⟨k, rfl⟩ := Nat.exists_eq_add_of_le he
      rw [show 2 + k - 1 = k + 1 by omega, show 2 + k - 2 = k by omega]
      exact (Nat.pow_succ (n := 2) (m := k)).trans (Nat.mul_comm _ _)
    rw [if_neg hn]
    split
    next hm =>
      calc m ≤ f.binade * 2 := by omega
        _ ≤ (f.binade + n % f.binade) * Nat.pow 2 (n / f.binade - 1) := by
          refine Nat.mul_le_mul (Nat.le_add_right _ _) ?_
          rw [hhalf _ hn2]
          exact Nat.le_mul_of_pos_right 2 (Nat.pow_pos (by decide))
    next hm =>
      have hle : m / f.binade ≤ n / f.binade := Nat.div_le_div_right h
      rcases Nat.lt_or_eq_of_le hle with hlt | heq
      · have hm2 : 2 ≤ m / f.binade := (Nat.le_div_iff_mul_le hb).2 (by omega)
        have hmod := Nat.mod_lt m hb
        calc (f.binade + m % f.binade) * Nat.pow 2 (m / f.binade - 1)
            ≤ (2 * f.binade) * Nat.pow 2 (m / f.binade - 1) :=
              Nat.mul_le_mul_right _ (by omega)
          _ = f.binade * Nat.pow 2 (m / f.binade) := by
              have hstep : Nat.pow 2 (m / f.binade) = 2 * Nat.pow 2 (m / f.binade - 1) := by
                have := hhalf (m / f.binade + 1) (by omega)
                simpa using this
              rw [hstep]
              ring
          _ ≤ f.binade * Nat.pow 2 (n / f.binade - 1) :=
              Nat.mul_le_mul_left _ (Nat.pow_le_pow_right (by decide) (by omega))
          _ ≤ (f.binade + n % f.binade) * Nat.pow 2 (n / f.binade - 1) :=
              Nat.mul_le_mul_right _ (Nat.le_add_right _ _)
      · have hm' := Nat.div_add_mod m f.binade
        have hn' := Nat.div_add_mod n f.binade
        have hmod : m % f.binade ≤ n % f.binade := by
          rw [heq] at hm'
          omega
        rw [heq]
        exact Nat.mul_le_mul_right _ (Nat.add_le_add_left hmod _)

end Format

/-! ## Numbers -/

variable {f g : Format}

theorem magnitude_ofMagnitude (s : Bool) {n : Nat} (h : n < f.signWeight) :
    (ofMagnitude s n : Binary f).magnitude = n ∧ (ofMagnitude s n : Binary f).negative = s := by
  have hwidth : 2 ^ f.width = 2 * f.signWeight := by
    rw [Format.width, Nat.pow_succ, Nat.mul_comm]
    rfl
  unfold ofMagnitude magnitude negative
  rw [BitVec.toNat_ofNat, hwidth]
  cases s with
  | false =>
    rw [if_neg (by decide), Nat.mod_eq_of_lt (by omega : n < 2 * f.signWeight), Nat.mod_eq_of_lt h]
    exact ⟨rfl, decide_eq_false (by omega)⟩
  | true =>
    rw [if_pos rfl, Nat.mod_eq_of_lt (by omega : f.signWeight + n < 2 * f.signWeight),
      Nat.add_mod_left, Nat.mod_eq_of_lt h]
    exact ⟨rfl, decide_eq_true (by omega)⟩

theorem magnitude_ofUnits (s : Bool) (num den : Nat) :
    (ofUnits s num den : Binary f).magnitude = f.roundUnits num den ∧
      (ofUnits s num den : Binary f).negative = s :=
  magnitude_ofMagnitude s
    ((Format.roundUnits_le_infinity f num den).trans_lt (Format.infinity_lt_signWeight f))

/-- The magnitude in the format `g` of a magnitude in the format `f`. -/
def convertMagnitude (f g : Format) (n : Nat) : Nat := g.roundUnits (f.units n * g.one) f.one

theorem convertMagnitude_mono (f g : Format) {m n : Nat} (h : m ≤ n) :
    convertMagnitude f g m ≤ convertMagnitude f g n :=
  Format.roundUnits_mono g (Nat.mul_le_mul_right _ (Format.units_mono f h))

theorem magnitude_convert {x : Binary f} (h : x.isFinite = true) :
    (x.convert : Binary g).magnitude = convertMagnitude f g x.magnitude ∧
      (x.convert : Binary g).negative = x.negative := by
  unfold convert
  rw [if_neg (by rw [not_isNaN_of_isFinite h]; decide), if_pos h]
  exact magnitude_ofUnits x.negative _ _

/-- In a format with as many fraction bits, what is not finite does not become so. -/
theorem isFinite_of_convert (hwide : f.fractionBits ≤ g.fractionBits) {x : Binary f}
    (h : (x.convert : Binary g).isFinite = true) : x.isFinite = true := by
  have hlarge : ∀ n, g.infinity ≤ n → n < g.signWeight →
      ¬ (ofMagnitude x.negative n : Binary g).isFinite = true := by
    intro n hn hw hfinite
    rw [isFinite, (magnitude_ofMagnitude x.negative hw).1, decide_eq_true_eq] at hfinite
    exact Nat.not_lt.2 hn hfinite
  unfold convert at h
  by_cases hnan : x.isNaN = true
  · rw [if_pos hnan] at h
    dsimp only at h
    rw [if_pos hwide] at h
    refine absurd h (hlarge _ (Nat.le_add_right ..) ?_)
    -- the payload, moved to the left, and the quiet bit stay below the exponent
    have hmoved : x.magnitude % f.binade * Nat.pow 2 (g.fractionBits - f.fractionBits) <
        2 ^ g.fractionBits := by
      have hpayload : x.magnitude % f.binade < 2 ^ f.fractionBits :=
        Nat.mod_lt _ (Format.binade_pos f)
      have hsplit : 2 ^ g.fractionBits =
          2 ^ f.fractionBits * 2 ^ (g.fractionBits - f.fractionBits) := by
        rw [← Nat.pow_add, Nat.add_sub_cancel' hwide]
      rw [hsplit]
      exact Nat.mul_lt_mul_of_pos_right hpayload (Nat.pow_pos (by decide))
    have hquiet : g.binade / 2 < 2 ^ g.fractionBits :=
      Nat.div_lt_self (Format.binade_pos g) (by decide)
    have hor := Nat.or_lt_two_pow hmoved hquiet
    have hone : 1 ≤ 2 ^ g.exponentBits := Nat.pow_pos (by decide)
    have hweight : g.signWeight = g.infinity + 2 ^ g.fractionBits := by
      have hpow : g.signWeight = 2 ^ g.exponentBits * 2 ^ g.fractionBits := by
        rw [Format.signWeight, Nat.mul_comm]
        exact Nat.pow_add 2 g.fractionBits g.exponentBits
      have hinf : g.infinity = (2 ^ g.exponentBits - 1) * 2 ^ g.fractionBits := rfl
      rw [hpow, hinf, Nat.sub_mul, Nat.one_mul,
        Nat.sub_add_cancel (Nat.le_mul_of_pos_left _ hone)]
    rw [hweight]
    exact Nat.add_lt_add_left hor _
  · rw [if_neg hnan] at h
    by_cases hfinite : x.isFinite = true
    · exact hfinite
    · rw [if_neg hfinite] at h
      exact absurd h (hlarge _ (Nat.le_refl _) (Format.infinity_lt_signWeight g))

/-- A number between two magnitudes that the format `g` has exactly, one on either side of
zero, stays between them when it is taken to `g` and back. -/
theorem order_convert_convert {x : Binary f} {a b : Nat} (h : x.isFinite = true)
    (hlow : -(a : Int) ≤ x.order) (hhigh : x.order ≤ b)
    (hga : convertMagnitude f g a < g.infinity) (hgb : convertMagnitude f g b < g.infinity)
    (ha : convertMagnitude g f (convertMagnitude f g a) = a)
    (hb : convertMagnitude g f (convertMagnitude f g b) = b) :
    -(a : Int) ≤ ((x.convert : Binary g).convert : Binary f).order ∧
      ((x.convert : Binary g).convert : Binary f).order ≤ b ∧
      ((x.convert : Binary g).convert : Binary f).magnitude ≤ max a b := by
  obtain ⟨hmag, hneg⟩ := magnitude_convert (g := g) h
  have hbound : (x.negative = true → x.magnitude ≤ a) ∧ (x.negative = false → x.magnitude ≤ b) := by
    unfold order at hlow hhigh
    constructor
    · intro hx
      rw [if_pos hx] at hlow
      omega
    · intro hx
      rw [if_neg (by rw [hx]; decide)] at hhigh
      omega
  have hfin : (x.convert : Binary g).isFinite = true := by
    refine isFinite_of_lt (hmag ▸ ?_)
    cases hx : x.negative with
    | true => exact (convertMagnitude_mono f g (hbound.1 hx)).trans_lt hga
    | false => exact (convertMagnitude_mono f g (hbound.2 hx)).trans_lt hgb
  obtain ⟨hmag', hneg'⟩ := magnitude_convert (g := f) hfin
  rw [hmag] at hmag'
  rw [hneg] at hneg'
  have hback : ∀ {c}, x.magnitude ≤ c → convertMagnitude g f (convertMagnitude f g c) = c →
      ((x.convert : Binary g).convert : Binary f).magnitude ≤ c := by
    intro c hc he
    rw [hmag', ← he]
    exact convertMagnitude_mono g f (convertMagnitude_mono f g hc)
  unfold order
  rw [hneg']
  cases hx : x.negative with
  | true =>
    have := hback (hbound.1 hx) ha
    rw [if_pos rfl]
    omega
  | false =>
    have := hback (hbound.2 hx) hb
    rw [if_neg (by decide)]
    omega

/-- The magnitude of a whole number. -/
def wholeMagnitude (f : Format) (n : Nat) : Nat := f.roundUnits (n * f.one) 1

theorem wholeMagnitude_mono (f : Format) {m n : Nat} (h : m ≤ n) :
    wholeMagnitude f m ≤ wholeMagnitude f n :=
  Format.roundUnits_mono f (Nat.mul_le_mul_right _ h)

theorem magnitude_ofInt (i : Int) :
    (ofInt i : Binary f).magnitude = wholeMagnitude f i.natAbs ∧
      (ofInt i : Binary f).negative = decide (i < 0) := by
  have hone : 0 < f.one := Nat.pow_pos (by decide)
  unfold ofInt ofSignedUnits
  by_cases hi : i = 0
  · subst hi
    rw [if_pos (Int.zero_mul _)]
    have hzero : wholeMagnitude f 0 = 0 := by
      unfold wholeMagnitude Format.roundUnits Format.nearest
      simp
    obtain ⟨hm, hn⟩ := magnitude_ofMagnitude (f := f) false
      (Nat.pow_pos (by decide) : 0 < f.signWeight)
    exact ⟨hm.trans hzero.symm, hn⟩
  · rw [if_neg (by
      intro e
      rcases Int.mul_eq_zero.1 e with e | e
      · exact hi e
      · omega)]
    obtain ⟨hm, hn⟩ :=
      magnitude_ofUnits (f := f) (i * (f.one : Int) < 0) (i * (f.one : Int)).natAbs 1
    refine ⟨?_, ?_⟩
    · rw [hm, Int.natAbs_mul, Int.natAbs_natCast]
      rfl
    · rw [hn]
      refine decide_eq_decide.2 ⟨fun h => ?_, fun h => Int.mul_neg_of_neg_of_pos h (by omega)⟩
      by_contra hge
      have := Int.mul_nonneg (by omega : 0 ≤ i) (by omega : 0 ≤ (f.one : Int))
      omega

theorem order_ofInt_mono {i j : Int} (h : i ≤ j) :
    (ofInt i : Binary f).order ≤ (ofInt j : Binary f).order := by
  obtain ⟨hi, hi'⟩ := magnitude_ofInt (f := f) i
  obtain ⟨hj, hj'⟩ := magnitude_ofInt (f := f) j
  unfold order
  rw [hi, hi', hj, hj']
  by_cases hin : i < 0
  · by_cases hjn : j < 0
    · have := wholeMagnitude_mono f (by omega : j.natAbs ≤ i.natAbs)
      simp only [hin, hjn, decide_true, if_true]
      omega
    · simp only [hin, hjn, decide_true, decide_false, if_true, Bool.false_eq_true, if_false]
      omega
  · have hjn : ¬ j < 0 := by omega
    have := wholeMagnitude_mono f (by omega : i.natAbs ≤ j.natAbs)
    simp only [hin, hjn, decide_false, Bool.false_eq_true, if_false]
    omega

theorem ofInt_zero : (ofInt 0 : Binary f) = zero := if_pos (Int.zero_mul _)

theorem lt_ofInt_eq_false {i j : Int} (h : i ≤ j) :
    (ofInt j : Binary f).lt (ofInt i) = false := by
  rw [lt, decide_eq_false (Int.not_lt.2 (order_ofInt_mono h)), Bool.and_false]

/-- What lies between zero and a finite whole number is finite. -/
theorem isFinite_ofInt {i j : Int} (hi : 0 ≤ i) (h : i ≤ j)
    (hj : (ofInt j : Binary f).isFinite = true) : (ofInt i : Binary f).isFinite = true := by
  have hle := order_ofInt_mono (f := f) h
  rw [order, order, (magnitude_ofInt i).2, (magnitude_ofInt j).2, decide_eq_false (by omega),
    decide_eq_false (by omega)] at hle
  simp only [isFinite, decide_eq_true_eq, Bool.false_eq_true, if_false] at hj hle ⊢
  omega

end Arcbase.Binary
