import Arcbase.Binary.Format
set_option autoImplicit false

/-!
# Binary numbers: data, comparison and arithmetic

`Binary f` is a datum of the format `f`: a sign and a magnitude, packed as the
format's bit pattern.  Comparison reads sign and magnitude as one integer
(`order`), on which the two zeros coincide; `totalOrder` tells them apart and
ranks not-a-numbers beyond the infinities.

The sum, product and quotient of two finite numbers is the exact result rounded
once.  A not-a-number operand is handed on, quieted, the first of two winning;
an operation without a meaningful result gives the negative quiet not-a-number.
-/

namespace Arcbase

open Binary (Format)

/-- A datum of the binary format `f`. -/
structure Binary (f : Format) where
  bits : BitVec f.width
  deriving DecidableEq, Repr

/-- A 64-bit binary number. -/
abbrev Binary64 := Binary Format.double

/-- A 32-bit binary number. -/
abbrev Binary32 := Binary Format.single

namespace Binary

variable {f : Format}

/-! ## Sign and magnitude -/

/-- The bit pattern below the sign. -/
def magnitude (x : Binary f) : Nat := x.bits.toNat % f.signWeight

/-- Whether the sign bit is set. -/
def negative (x : Binary f) : Bool := f.signWeight ≤ x.bits.toNat

/-- The datum with the given sign and magnitude. -/
def ofMagnitude (negative : Bool) (magnitude : Nat) : Binary f :=
  ⟨BitVec.ofNat _ (if negative then f.signWeight + magnitude else magnitude)⟩

/-- The datum with the given bit pattern. -/
def ofBits (n : Nat) : Binary f := ⟨BitVec.ofNat _ n⟩

def isNaN (x : Binary f) : Bool := f.infinity < x.magnitude

def isFinite (x : Binary f) : Bool := x.magnitude < f.infinity

/-- Positive zero. -/
def zero : Binary f := ofMagnitude false 0

instance : Inhabited (Binary f) := ⟨zero⟩

/-- Infinity of the given sign. -/
def infinite (negative : Bool) : Binary f := ofMagnitude negative f.infinity

/-- The not-a-number that an operation without a meaningful result gives. -/
def invalid : Binary f := ofMagnitude true f.quietNaN

/-- The positive quiet not-a-number. -/
def nan : Binary f := ofMagnitude false f.quietNaN

/-- The largest finite number. -/
def largest : Binary f := ofMagnitude false (f.infinity - 1)

/-- The datum with its sign bit turned. -/
def neg (x : Binary f) : Binary f := ofMagnitude (!x.negative) x.magnitude

/-- The units of a finite number, signed. -/
def units (x : Binary f) : Int :=
  if x.negative then -(f.units x.magnitude : Int) else f.units x.magnitude

/-! ## Comparison -/

/-- Sign and magnitude as one integer: the order of the numbers, with equal
zeros. -/
def order (x : Binary f) : Int :=
  if x.negative then -(x.magnitude : Int) else x.magnitude

def eq (x y : Binary f) : Bool := !x.isNaN && !y.isNaN && x.order == y.order

def lt (x y : Binary f) : Bool := !x.isNaN && !y.isNaN && decide (x.order < y.order)

def le (x y : Binary f) : Bool := !x.isNaN && !y.isNaN && decide (x.order ≤ y.order)

/-- Rank in the total order of all data: negative not-a-numbers, the numbers
with `-0` before `0`, positive not-a-numbers. -/
def totalOrder (x : Binary f) : Int :=
  if x.negative then -(x.magnitude : Int) - 1 else x.magnitude

/-! ## Rounding into a format -/

/-- `num / den` units with the given sign, rounded to the format. -/
def ofUnits (negative : Bool) (num den : Nat) : Binary f :=
  ofMagnitude negative (f.roundUnits num den)

/-- A signed number of units over `den`; an exact zero takes the sign
`zeroNegative`. -/
def ofSignedUnits (zeroNegative : Bool) (num : Int) (den : Nat) : Binary f :=
  if num = 0 then ofMagnitude zeroNegative 0
  else ofUnits (num < 0) num.natAbs den

/-- The number nearest to an integer. -/
def ofInt (i : Int) : Binary f := ofSignedUnits false (i * f.one) 1

/-- The number nearest to a natural. -/
def ofNat (n : Nat) : Binary f := ofInt n

/-- The nearest number in another format.  A not-a-number keeps its sign and
the leading bits of its payload, and is quieted. -/
def convert {g : Format} (x : Binary f) : Binary g :=
  if x.isNaN then
    let payload := x.magnitude % f.binade
    let moved :=
      if f.fractionBits ≤ g.fractionBits then payload * Nat.pow 2 (g.fractionBits - f.fractionBits)
      else payload / Nat.pow 2 (f.fractionBits - g.fractionBits)
    ofMagnitude x.negative (g.infinity + (moved ||| g.binade / 2))
  else if x.isFinite then
    ofUnits x.negative (f.units x.magnitude * g.one) f.one
  else infinite x.negative

/-! ## Arithmetic -/

/-- The datum as a not-a-number that raises no signal. -/
def quiet (x : Binary f) : Binary f := ofMagnitude x.negative (x.magnitude ||| f.binade / 2)

/-- Hands on the first not-a-number among the operands, else computes. -/
def unlessNaN (x y : Binary f) (result : Binary f) : Binary f :=
  if x.isNaN then x.quiet else if y.isNaN then y.quiet else result

def add (x y : Binary f) : Binary f :=
  unlessNaN x y <|
    if !x.isFinite then
      if !y.isFinite && x.negative != y.negative then invalid else x
    else if !y.isFinite then y
    else ofSignedUnits (x.negative && y.negative) (x.units + y.units) 1

def sub (x y : Binary f) : Binary f :=
  unlessNaN x y (add x y.neg)

def mul (x y : Binary f) : Binary f :=
  let negative := x.negative != y.negative
  unlessNaN x y <|
    if !x.isFinite || !y.isFinite then
      if x.magnitude = 0 || y.magnitude = 0 then invalid else infinite negative
    else ofUnits negative (f.units x.magnitude * f.units y.magnitude) f.one

def div (x y : Binary f) : Binary f :=
  let negative := x.negative != y.negative
  unlessNaN x y <|
    if !x.isFinite then
      if !y.isFinite then invalid else infinite negative
    else if !y.isFinite then ofMagnitude negative 0
    else if y.magnitude = 0 then
      if x.magnitude = 0 then invalid else infinite negative
    else ofUnits negative (f.units x.magnitude * f.one) (f.units y.magnitude)

/-! ## Integers -/

/-- The integer part of a finite number. -/
def truncate (x : Binary f) : Int :=
  let whole : Int := (f.units x.magnitude / f.one : Nat)
  if x.negative then -whole else whole

/-- The integer part, moved to the nearer end when it lies outside
`lo .. hi`; zero for a not-a-number. -/
def toIntClamped (lo hi : Int) (x : Binary f) : Int :=
  if x.isNaN then 0
  else if x.isFinite then max lo (min hi x.truncate)
  else if x.negative then lo else hi

/-- Whether a number has no fraction part. -/
def isWhole (x : Binary f) : Bool := x.isFinite && f.units x.magnitude % f.one == 0

/-! ## Elementary facts -/

theorem order_le_totalOrder_succ (x : Binary f) : x.totalOrder ≤ x.order := by
  unfold totalOrder order
  split <;> omega

theorem isFinite_of_lt {x : Binary f} (h : x.magnitude < f.infinity) : x.isFinite = true := by
  simpa [isFinite] using h

theorem not_isNaN_of_isFinite {x : Binary f} (h : x.isFinite = true) : x.isNaN = false := by
  simp only [isFinite, decide_eq_true_eq] at h
  simp only [isNaN, decide_eq_false_iff_not]
  omega

end Binary

end Arcbase
