import Arcbase.Decimal.Shortest
set_option autoImplicit false

/-!
# Layouts of decimal text

A `Layout` records how the digits of a number are set out: for which exponents
the notation is positional, whether a whole number keeps a fraction, how an
exponent is written.  The digits themselves are those of `shortest`.
-/

namespace Arcbase.Decimal

open Binary (Format)

/-- How a decimal is written down. -/
structure Layout where
  /-- Where a tie between two shortest decimals goes. -/
  tie : Tie
  /-- Exponents of the leading digit that are written positionally; without
  bounds, all of them. -/
  positional : Option (Int × Int)
  /-- Whether a whole number written positionally ends in `.0`. -/
  keepFraction : Bool
  /-- Whether a positive exponent has a plus sign. -/
  plusSign : Bool
  deriving DecidableEq, Repr

namespace Layout

/-- Numbers in messages: never an exponent, and no fraction for a whole. -/
def message : Layout :=
  { tie := .away, positional := none, keepFraction := false, plusSign := false }

/-- Numbers quoted as literals: always a fraction or an exponent. -/
def literal : Layout :=
  { tie := .away, positional := some (-4, 15), keepFraction := true, plusSign := false }

/-- 64-bit numbers in JSON text. -/
def json64 : Layout :=
  { tie := .even, positional := some (-5, 15), keepFraction := true, plusSign := true }

/-- 32-bit numbers in JSON text. -/
def json32 : Layout :=
  { tie := .even, positional := some (-6, 12), keepFraction := true, plusSign := true }

def isPositional (l : Layout) (leading : Int) : Bool :=
  match l.positional with
  | none => true
  | some (low, high) => low ≤ leading && leading ≤ high

/-- Digits set out positionally around the point. -/
def positionalText (l : Layout) (digits : List Char) (exponent : Int) : List Char :=
  let whole := if l.keepFraction then ['.', '0'] else []
  if 0 ≤ exponent then digits ++ List.replicate exponent.toNat '0' ++ whole
  else
    let places := (-exponent).toNat
    if places < digits.length then
      let split := digits.length - places
      digits.take split ++ '.' :: digits.drop split
    else ['0', '.'] ++ List.replicate (places - digits.length) '0' ++ digits

/-- Digits with the point after the first, and an exponent. -/
def exponentText (l : Layout) (digits : List Char) (leading : Int) : List Char :=
  let fraction := digits.drop 1
  let point := if fraction.isEmpty then [] else '.' :: fraction
  let sign := if leading < 0 then ['-'] else if l.plusSign then ['+'] else []
  digits.take 1 ++ point ++ 'e' :: sign ++ digitsOf leading.natAbs

/-- The text of a decimal. -/
def textOf (l : Layout) (d : Scientific) : List Char :=
  let digits := digitsOf d.significand
  if l.isPositional d.leading then l.positionalText digits d.exponent
  else l.exponentText digits d.leading

/-- The text of a binary number. -/
def format {f : Format} (l : Layout) (x : Binary f) : String :=
  if x.isNaN then "NaN"
  else
    let body := if x.isFinite then l.textOf (shortest f l.tie x.magnitude) else ['i', 'n', 'f']
    String.ofList (if x.negative then '-' :: body else body)

end Layout

end Arcbase.Decimal
