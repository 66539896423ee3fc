import Arcbase.Proofs.Binary.Rounding
import Arcbase.Store.Connect
set_option autoImplicit false

/-!
# Values of a kind

Whatever a kind stores it also allows: a caller's number that has been coerced, a sum that
has been saturated, and the default of a fresh arc.  The one thing to see is that a real
does not leave its domain when it is rounded, for the ends of every domain are numbers that
the storage form has exactly (`RealDomain`).

So an update that fits a kind, as every request's does, leaves an allowed value in a slot
that was vacant or held one (`ArcUpdate.Fits.allows_apply`).
-/

namespace Arcbase

namespace ArcKind

open Binary (convertMagnitude Format)

variable {k : ArcKind} {raw : Binary64}

/-! ## Domains -/

/-- A number that lies in the domain of a kind. -/
structure Within (k : ArcKind) (raw : Binary64) : Prop where
  number : raw.isNaN = false
  low : k.bounds.1.order ≤ raw.order
  high : raw.order ≤ k.bounds.2.order

/-- The ends of a domain of reals, one on either side of zero, are stored exactly. -/
structure RealDomain (k : ArcKind) (a b : Nat) : Prop where
  low : k.bounds.1.order = -(a : Int)
  high : k.bounds.2.order = b
  narrow : convertMagnitude Format.double Format.single a < Format.single.infinity ∧
    convertMagnitude Format.double Format.single b < Format.single.infinity
  exact : convertMagnitude Format.single Format.double
      (convertMagnitude Format.double Format.single a) = a ∧
    convertMagnitude Format.single Format.double
      (convertMagnitude Format.double Format.single b) = b

/-- The magnitude of the number one. -/
def oneMagnitude : Nat := 4607182418800017408

/-- The magnitude of the largest 32-bit real. -/
def largestMagnitude : Nat := 5183643170566569984

theorem realDomains : RealDomain similarity oneMagnitude oneMagnitude ∧
    RealDomain distance 0 largestMagnitude ∧
      RealDomain float largestMagnitude largestMagnitude := by
  refine ⟨?_, ?_, ?_⟩ <;> constructor <;> decide +kernel

theorem realDomain_accumulator : RealDomain accumulator largestMagnitude largestMagnitude :=
  ⟨realDomains.2.2.low, realDomains.2.2.high, realDomains.2.2.narrow, realDomains.2.2.exact⟩

/-- The ends of every domain are finite, and zero lies between them. -/
theorem zero_between_bounds (k : ArcKind) :
    k.bounds.1.isFinite = true ∧ k.bounds.2.isFinite = true ∧
      k.bounds.1.order ≤ (Binary.zero : Binary64).order ∧
        (Binary.zero : Binary64).order ≤ k.bounds.2.order := by
  cases k <;> decide +kernel

theorem bounds_ordered (k : ArcKind) : k.bounds.1.isFinite = true ∧ k.bounds.2.isFinite = true ∧
    k.bounds.1.order ≤ k.bounds.2.order := by
  obtain ⟨hl, hh, hlow, hhigh⟩ := zero_between_bounds k
  exact ⟨hl, hh, hlow.trans hhigh⟩

theorem magnitude_le_of_order {x low high : Binary64} (hlow : low.order ≤ x.order)
    (hhigh : x.order ≤ high.order) : x.magnitude ≤ max low.magnitude high.magnitude := by
  simp only [Binary.order] at hlow hhigh
  cases hx : x.negative with
  | true =>
    rw [hx] at hlow
    rw [if_pos rfl] at hlow
    split at hlow <;> omega
  | false =>
    rw [hx] at hhigh
    rw [if_neg Bool.false_ne_true] at hhigh
    split at hhigh <;> omega

theorem Within.isFinite (h : k.Within raw) : raw.isFinite = true := by
  obtain ⟨hl, hh, _⟩ := bounds_ordered k
  simp only [Binary.isFinite, decide_eq_true_eq] at hl hh
  exact Binary.isFinite_of_lt
    (Nat.lt_of_le_of_lt (magnitude_le_of_order h.low h.high) (Nat.max_lt.2 ⟨hl, hh⟩))

theorem within_low (k : ArcKind) : k.Within k.bounds.1 :=
  ⟨Binary.not_isNaN_of_isFinite (bounds_ordered k).1, Int.le_refl _, (bounds_ordered k).2.2⟩

theorem within_high (k : ArcKind) : k.Within k.bounds.2 :=
  ⟨Binary.not_isNaN_of_isFinite (bounds_ordered k).2.1, (bounds_ordered k).2.2, Int.le_refl _⟩

theorem within_zero (k : ArcKind) : k.Within .zero :=
  ⟨rfl, (zero_between_bounds k).2.2.1, (zero_between_bounds k).2.2.2⟩

theorem lt_eq_false {x y : Binary64} (hx : x.isNaN = false) (hy : y.isNaN = false)
    (h : x.lt y = false) : y.order ≤ x.order := by
  simpa [Binary.lt, hx, hy] using h

theorem within_of_not_lt (hnumber : raw.isNaN = false) (hlow : raw.lt k.bounds.1 = false)
    (hhigh : k.bounds.2.lt raw = false) : k.Within raw :=
  ⟨hnumber, lt_eq_false hnumber (within_low k).number hlow,
    lt_eq_false (within_high k).number hnumber hhigh⟩

/-- What has been moved into the domain lies in it. -/
theorem within_clamp (k : ArcKind) (raw : Binary64) : k.Within (k.clamp raw) := by
  unfold clamp
  dsimp only
  split
  · exact within_low k
  next hnumber =>
    split
    · exact within_low k
    next hlow =>
      split
      · exact within_high k
      next hhigh =>
        rw [Bool.not_eq_true] at hnumber hlow hhigh
        exact within_of_not_lt hnumber hlow hhigh

/-! ## Stored values -/

theorem allows_of_within {v : ArcValue} (hform : v.sameForm (k.store .zero) = true)
    (h : k.Within v.toNumber) : k.allows v = true := by
  have hl := (within_low k).number
  have hh := (within_high k).number
  simp [allows, hform, Binary.le, hl, hh, h.number, h.isFinite, h.low, h.high]

/-- Rounding does not leave a domain of reals. -/
theorem RealDomain.within_convert {a b : Nat} (hd : RealDomain k a b) (h : k.Within raw) :
    k.Within (ArcValue.real raw.convert).toNumber := by
  obtain ⟨hlow, hhigh, hmagnitude⟩ := Binary.order_convert_convert (g := Format.single) h.isFinite
    (hd.low ▸ h.low) (hd.high ▸ h.high) hd.narrow.1 hd.narrow.2 hd.exact.1 hd.exact.2
  have hends : a < Format.double.infinity ∧ b < Format.double.infinity := by
    obtain ⟨hl, hh, _⟩ := bounds_ordered k
    have ha := hd.low
    have hb := hd.high
    simp only [Binary.isFinite, decide_eq_true_eq] at hl hh
    simp only [Binary.order] at ha hb
    split at ha <;> split at hb <;> omega
  refine ⟨Binary.not_isNaN_of_isFinite (Binary.isFinite_of_lt ?_), hd.low ▸ hlow, hd.high ▸ hhigh⟩
  exact Nat.lt_of_le_of_lt hmagnitude (Nat.max_lt.2 hends)

theorem isFinite_largestUnsigned : (Binary.ofInt 4294967295 : Binary64).isFinite = true := by
  have hends : counter.bounds = (.zero, .ofInt 4294967295) := rfl
  have hfinite := (bounds_ordered counter).2.1
  simp only [hends] at hfinite
  exact hfinite

theorem isNaN_ofInt {i : Int} (h : i.natAbs ≤ 4294967295) :
    (Binary.ofInt i : Binary64).isNaN = false := by
  have hlargest := of_decide_eq_true isFinite_largestUnsigned
  rw [(Binary.magnitude_ofInt _).1] at hlargest
  refine Binary.not_isNaN_of_isFinite (Binary.isFinite_of_lt ?_)
  rw [(Binary.magnitude_ofInt i).1]
  exact Nat.lt_of_le_of_lt (Binary.wholeMagnitude_mono _ h) hlargest

/-- Every integer is one of the kind's. -/
theorem within_integer (i : Int32) : integer.Within (ArcValue.integer i).toNumber := by
  have hlow : -2147483648 ≤ i.toInt := i.le_toInt
  have hhigh : i.toInt ≤ 2147483647 := Int.le_of_lt_add_one i.toInt_lt
  have hends : integer.bounds = (.ofInt (-2147483648), .ofInt 2147483647) := rfl
  have hnumber : (ArcValue.integer i).toNumber = .ofInt i.toInt := rfl
  constructor
  · exact isNaN_ofInt (by omega)
  · simp only [hends, hnumber]
    exact Binary.order_ofInt_mono hlow
  · simp only [hends, hnumber]
    exact Binary.order_ofInt_mono hhigh

/-- Every unsigned number is one of the kinds' that store unsigned numbers. -/
theorem within_unsigned (hends : k.bounds = (.zero, .ofInt 4294967295)) (u : UInt32) :
    k.Within (ArcValue.unsigned u).toNumber := by
  have hhigh : (u.toNat : Int) ≤ 4294967295 := by
    have := u.toNat_lt
    omega
  have hzero : (Binary.zero : Binary64).order = (Binary.ofInt 0 : Binary64).order := by
    rw [Binary.ofInt_zero]
  have hnumber : (ArcValue.unsigned u).toNumber = .ofInt (u.toNat : Int) := rfl
  constructor
  · rw [hnumber]
    exact isNaN_ofInt (by omega)
  · simp only [hends, hnumber, hzero]
    exact Binary.order_ofInt_mono (Int.natCast_nonneg _)
  · simp only [hends, hnumber]
    exact Binary.order_ofInt_mono hhigh

/-- A number in the domain of a kind is stored as a value that the kind allows. -/
theorem allows_store (h : k.Within raw) : k.allows (k.store raw) = true := by
  cases k with
  | static => rfl
  | similarity => exact allows_of_within rfl (realDomains.1.within_convert h)
  | distance => exact allows_of_within rfl (realDomains.2.1.within_convert h)
  | float => exact allows_of_within rfl (realDomains.2.2.within_convert h)
  | accumulator => exact allows_of_within rfl (realDomain_accumulator.within_convert h)
  | integer => exact allows_of_within rfl (within_integer _)
  | hash | unsigned | counter | timeCreated | timeModified | timeExpires =>
    exact allows_of_within rfl (within_unsigned rfl _)

theorem allows_saturate (k : ArcKind) (raw : Binary64) : k.allows (k.saturate raw) = true :=
  allows_store (within_clamp k raw)

/-- A finite number inside the domain is taken as it is. -/
theorem coerce_of_within {raw : Binary64} (hfinite : raw.isFinite = true)
    (hlow : raw.lt k.bounds.1 = false) (hhigh : k.bounds.2.lt raw = false) :
    k.coerce raw = .ok (k.store raw) := by
  simp only [coerce, hfinite, hlow, hhigh, Bool.or_self, Bool.not_true, Bool.false_eq_true,
    and_false, if_false]

/-- Every time is one at which an arc may expire. -/
theorem coerce_timeExpires (time : UInt32) : timeExpires.coerce (.ofNat time.toNat) =
    .ok (timeExpires.store (.ofNat time.toNat)) := by
  have hlow : (0 : Int) ≤ time.toNat := Int.natCast_nonneg _
  have hhigh : (time.toNat : Int) ≤ 4294967295 := by
    have := time.toNat_lt
    omega
  have hbounds : timeExpires.bounds = (.zero, .ofInt 4294967295) := rfl
  rw [← Binary.ofInt_zero] at hbounds
  rw [Binary.ofNat]
  refine coerce_of_within (Binary.isFinite_ofInt hlow hhigh isFinite_largestUnsigned) ?_ ?_
  · simp only [hbounds, Binary.lt_ofInt_eq_false hlow]
  · simp only [hbounds, Binary.lt_ofInt_eq_false hhigh]

theorem allows_coerce {v : ArcValue} (h : k.coerce raw = .ok v) : k.allows v = true := by
  unfold coerce at h
  dsimp only at h
  split at h
  · cases h
  next hfinite =>
    split at h
    · cases h
    next hinside =>
      cases h
      by_cases hk : k = static
      · subst hk
        rfl
      · have hfinite : raw.isFinite = true := by simpa using hfinite
        have hinside : raw.lt k.bounds.1 = false ∧ k.bounds.2.lt raw = false := by
          simpa [hk] using hinside
        exact allows_store (within_of_not_lt (Binary.not_isNaN_of_isFinite hfinite) hinside.1
          hinside.2)

theorem sameForm_of_allows {v : ArcValue} (h : k.allows v = true) :
    v.sameForm (k.store .zero) = true := by
  simp only [allows, Bool.and_eq_true] at h
  exact h.1

/-- A time is stored as a number. -/
theorem unsigned_of_allows {v : ArcValue} (h : timeExpires.allows v = true) :
    ∃ time, v = .unsigned time := by
  have hform := sameForm_of_allows h
  cases v with
  | unsigned time => exact ⟨time, rfl⟩
  | _ => exact absurd hform Bool.false_ne_true

/-- A time is a value of the kinds of times. -/
theorem allows_time (hk : k.isTime = true) (now : UInt32) : k.allows (.unsigned now) = true := by
  cases k <;>
    first
      | exact absurd hk (by decide)
      | exact allows_of_within rfl (within_unsigned rfl now)

theorem allows_defaultValue (k : ArcKind) (now : UInt32) :
    k.allows (k.defaultValue now) = true := by
  unfold defaultValue
  split
  next hk => exact allows_time hk now
  next =>
    exact allows_store (within_zero k)

/-- A value has the storage form of a kind and lies between the ends of its domain, both
included, so that a real is a number and finite. -/
structure Typed (k : ArcKind) (v : ArcValue) : Prop where
  form : v.sameForm (k.store .zero) = true
  bounded : k.bounds.1.le v.toNumber = true ∧ v.toNumber.le k.bounds.2 = true
  finite : ∀ r, v = .real r → r.isFinite = true

theorem allows_iff_typed {v : ArcValue} : k.allows v = true ↔ k.Typed v := by
  constructor
  · intro h
    have hform := sameForm_of_allows h
    by_cases hk : k = static
    · subst hk
      cases v with
      | empty => exact ⟨rfl, by decide +kernel, nofun⟩
      | _ => exact absurd hform Bool.false_ne_true
    · simp only [allows, Bool.and_eq_true, Bool.or_eq_true, beq_iff_eq, hk, false_or] at h
      obtain ⟨_, ⟨hfinite, hlow⟩, hhigh⟩ := h
      refine ⟨hform, ⟨hlow, hhigh⟩, ?_⟩
      rintro r rfl
      exact Binary.isFinite_of_convert (by decide) hfinite
  · intro h
    have hwithin : k.Within v.toNumber := by
      obtain ⟨hlow, hhigh⟩ := h.bounded
      simp only [Binary.le, Bool.and_eq_true, Bool.not_eq_true', decide_eq_true_eq] at hlow hhigh
      exact ⟨hlow.1.2, hlow.2, hhigh.2⟩
    exact allows_of_within h.form hwithin

/-- A value of a kind that stores reals is one. -/
theorem Typed.exists_real {v : ArcValue} (h : k.Typed v) {zero : Binary32}
    (hk : k.store .zero = .real zero) : ∃ r, v = .real r := by
  have hform := h.form
  rw [hk] at hform
  cases v with
  | real r => exact ⟨r, rfl⟩
  | _ => exact absurd hform Bool.false_ne_true

end ArcKind

/-! ## Updates -/

namespace ArcUpdate

variable {u : ArcUpdate} {kind : ArcKind}

/-- The update writes values of the kind. -/
def Fits : ArcUpdate → ArcKind → Prop
  | set (some v), kind => kind.allows v = true
  | _, _ => True

/-- An update that fits leaves an allowed value in place of none or of an allowed one. -/
theorem Fits.allows_apply (h : u.Fits kind) {old : Option ArcValue}
    (hold : ∀ v, old = some v → kind.allows v = true) (now : UInt32) :
    kind.allows (u.apply kind old now) = true := by
  cases u with
  | add delta => cases old <;> exact ArcKind.allows_saturate kind _
  | set value =>
    cases value with
    | some v => exact h
    | none =>
      cases old with
      | none => exact ArcKind.allows_defaultValue kind now
      | some v =>
        unfold apply
        dsimp only
        split
        next hk => exact ArcKind.allows_time (hk ▸ rfl) now
        next => exact hold v rfl

/-- A request overwrites with the value that it gives, or it adds that value, one by default. -/
theorem ofRequest_cases {r : ArcRequest} (h : ofRequest r = .ok u) :
    (r.value = none ∧
      (r.kind.isAccumulating = true ∧ u = .add (.ofInt 1) ∨
        r.kind.isAccumulating = false ∧ u = .set none)) ∨
    ∃ raw v, r.value = some raw ∧ r.kind.coerce raw = .ok v ∧
      (r.kind.isAccumulating = true ∧ u = .add v.toNumber ∨
        r.kind.isAccumulating = false ∧ u = .set (some v)) := by
  unfold ofRequest at h
  cases hvalue : r.value with
  | none =>
    rw [hvalue] at h
    have hnone : (none : Option Binary64).mapM
        (fun v => (r.kind.coerce v).mapError fun fault => Error.arc (.invalidValue r.kind fault)) =
        .ok none := rfl
    rw [hnone] at h
    simp only [bind, Except.bind] at h
    split at h
    next hadds =>
      rw [Option.elim_none] at h
      exact .inl ⟨rfl, .inl ⟨hadds, (Except.ok.inj h).symm⟩⟩
    next hsets =>
      split at h
      · cases h
      · cases h
        exact .inl ⟨rfl, .inr ⟨Bool.eq_false_iff.2 hsets, rfl⟩⟩
  | some raw =>
    rw [hvalue] at h
    have hsome : (some raw).mapM
        (fun v => (r.kind.coerce v).mapError fun fault => Error.arc (.invalidValue r.kind fault)) =
        some <$> (r.kind.coerce raw).mapError fun fault => Error.arc (.invalidValue r.kind fault) :=
      rfl
    rw [hsome] at h
    cases hcoerced : r.kind.coerce raw with
    | error fault =>
      simp [hcoerced, bind, Except.bind, Except.mapError] at h
    | ok v =>
      simp [hcoerced, bind, Except.bind, Except.mapError, pure, Except.pure] at h
      split at h
      next hadds =>
        cases h
        exact .inr ⟨raw, v, rfl, hcoerced, .inl ⟨hadds, rfl⟩⟩
      next hsets =>
        cases h
        exact .inr ⟨raw, v, rfl, hcoerced, .inr ⟨Bool.eq_false_iff.2 hsets, rfl⟩⟩

theorem fits_ofRequest {r : ArcRequest} (h : ofRequest r = .ok u) : u.Fits r.kind := by
  rcases ofRequest_cases h with
    ⟨_, ⟨_, rfl⟩ | ⟨_, rfl⟩⟩ | ⟨raw, v, _, hcoerced, ⟨_, rfl⟩ | ⟨_, rfl⟩⟩
  · trivial
  · trivial
  · trivial
  · exact ArcKind.allows_coerce hcoerced

end ArcUpdate

end Arcbase
