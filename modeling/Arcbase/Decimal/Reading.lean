import Arcbase.Binary.Number
set_option autoImplicit false

/-!
# Decimals read as binary numbers

A decimal literal is read in rounded steps.  Of its digits so many are taken as fit
64 bits; the natural number they make is rounded, and then multiplied or divided by
a power of ten that is rounded itself.  A literal whose digits and power of ten are
binary numbers is thus rounded once; others may miss the nearest binary number by a
few places.
-/

namespace Arcbase.Decimal

/-- The value of a decimal digit. -/
def digitValue (c : Char) : Nat := c.toNat - '0'.toNat

/-- Takes digits behind a number as long as 64 bits hold it, and answers the number
and the digits that are left. -/
def takeDigits (n : Nat) : List Char → Nat × List Char
  | [] => (n, [])
  | c :: rest =>
    if 10 * n + digitValue c < UInt64.size then takeDigits (10 * n + digitValue c) rest
    else (n, c :: rest)

theorem takeDigits_fst_lt {n : Nat} (h : n < UInt64.size) (digits : List Char) :
    (takeDigits n digits).1 < UInt64.size := by
  induction digits generalizing n with
  | nil => exact h
  | cons c rest ih =>
    unfold takeDigits
    split
    · next h => exact ih h
    · exact h

/-- A decimal literal: sign, digits, and the power of ten of the last digit. -/
structure Literal where
  negative : Bool
  significand : Nat
  exponent : Int
  deriving DecidableEq, Repr

namespace Literal

/-- The literal with the given digits in front of the point and behind it.  A digit
in front that is not taken raises the exponent, a digit behind that is taken lowers
it. -/
def ofDigits (negative : Bool) (whole fraction : List Char) (exponent : Int) : Literal :=
  let (front, surplus) := takeDigits 0 whole
  let (significand, ignored) := takeDigits front fraction
  { negative
    significand
    exponent := exponent + surplus.length + ignored.length - fraction.length }

/-- The greatest exponent of a power of ten that is finite in the 64-bit format. -/
def greatestPower : Nat := 308

/-- A power of ten. -/
def power (n : Nat) : Binary64 := .ofNat (Nat.pow 10 n)

/-- A number over a power of ten, divided twice where that power is not finite;
twice the greatest power leaves nothing. -/
def scaleDown (x : Binary64) (n : Nat) : Binary64 :=
  if n ≤ greatestPower then x.div (power n)
  else if n ≤ 2 * greatestPower then (x.div (power greatestPower)).div (power (n - greatestPower))
  else .zero

/-- A number times a power of ten, unless that is too large. -/
def scaleUp? (x : Binary64) (n : Nat) : Option Binary64 :=
  if n ≤ greatestPower then (some (x.mul (power n))).filter Binary.isFinite else none

/-- The literal without its sign; nothing if it is too large. -/
def magnitude? (d : Literal) : Option Binary64 :=
  if d.significand = 0 then some .zero
  else match d.exponent with
    | .ofNat n => scaleUp? (.ofNat d.significand) n
    | .negSucc n => some (scaleDown (.ofNat d.significand) (n + 1))

/-- The binary number that is read for a literal; nothing if it is too large. -/
def toBinary64? (d : Literal) : Option Binary64 :=
  d.magnitude?.map fun x => if d.negative then x.neg else x

end Literal

end Arcbase.Decimal
