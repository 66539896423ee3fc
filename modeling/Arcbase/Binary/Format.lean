set_option autoImplicit false

/-!
# Binary interchange formats

A binary floating-point format is given by the widths of its exponent and
fraction fields.  Below the sign bit a datum is a natural number, its
*magnitude*; magnitudes are ordered as the numbers they stand for, and those
from `infinity` upward stand for infinity and the not-a-numbers.

Every finite magnitude is a whole number of *units*, a unit being the distance
between the two smallest numbers of the format (`2 ^ unitExponent`).  Measured
in units, all finite numbers are naturals, so the arithmetic of this library is
exact arithmetic on naturals followed by one rounding, `roundUnits`.
-/

namespace Arcbase.Binary

/-- Field widths of a binary format. -/
structure Format where
  fractionBits : Nat
  exponentBits : Nat
  deriving DecidableEq, Repr

namespace Format

/-- The 64-bit format. -/
abbrev double : Format := ⟨52, 11⟩

/-- The 32-bit format. -/
abbrev single : Format := ⟨23, 8⟩

/-- Width of a datum, the sign bit included. -/
abbrev width (f : Format) : Nat := f.fractionBits + f.exponentBits + 1

/-- Weight of the sign bit: one more than the largest magnitude. -/
def signWeight (f : Format) : Nat := Nat.pow 2 (f.fractionBits + f.exponentBits)

/-- Magnitude of the least normal number, and the number of magnitudes between
one power of two and the next. -/
def binade (f : Format) : Nat := Nat.pow 2 f.fractionBits

/-- Magnitude of infinity. -/
def infinity (f : Format) : Nat := (Nat.pow 2 f.exponentBits - 1) * f.binade

/-- Magnitude of the quiet not-a-number without further payload. -/
def quietNaN (f : Format) : Nat := f.infinity + f.binade / 2

/-- Units in the number one: a unit is `2 ^ (-unitShift)`. -/
def unitShift (f : Format) : Nat := Nat.pow 2 (f.exponentBits - 1) - 2 + f.fractionBits

/-- The number one, in units. -/
def one (f : Format) : Nat := Nat.pow 2 f.unitShift

/-- The units of a magnitude. -/
def units (f : Format) (magnitude : Nat) : Nat :=
  if magnitude < 2 * f.binade then magnitude
  else (f.binade + magnitude % f.binade) * Nat.pow 2 (magnitude / f.binade - 1)

/-- The nearest natural to `num / den`; a half goes to the even neighbour. -/
def nearest (num den : Nat) : Nat :=
  let q := num / den
  let r := num % den
  if 2 * r < den then q
  else if den < 2 * r then q + 1
  else if q % 2 = 0 then q else q + 1

/-- The magnitude nearest to `num / den` units; a half goes to the even
magnitude, and what is too large becomes infinity. -/
def roundUnits (f : Format) (num den : Nat) : Nat :=
  let shift := Nat.log2 (num / den) - f.fractionBits
  min f.infinity (shift * f.binade + nearest num (den * Nat.pow 2 shift))

theorem units_of_lt {f : Format} {n : Nat} (h : n < 2 * f.binade) : f.units n = n := by
  simp [units, h]

theorem nearest_one (n : Nat) : nearest n 1 = n := by
  simp [nearest, Nat.mod_one]

theorem roundUnits_le_infinity (f : Format) (num den : Nat) :
    f.roundUnits num den ≤ f.infinity :=
  Nat.min_le_left _ _

end Format

end Arcbase.Binary
