import Arcbase.Binary.Number
set_option autoImplicit false

/-!
# The shortest decimal that reads back

A finite binary number is the rounding of every real in an interval around it,
bounded by the midpoints to its neighbours; the midpoints belong to it when its
magnitude is even.  `shortest` gives the decimal with the fewest digits in that
interval, and of those the one nearest to the number itself.

All tests are on naturals: the number is `units / one`, and its two neighbours
on the grid of multiples of `10 ^ k` are the only candidates of that grid that
need a look, since a grid point in the interval lies at or beyond one of them.
-/

namespace Arcbase.Decimal

open Binary (Format)

/-- Which neighbour an exact tie between two decimals goes to. -/
inductive Tie where
  | away
  | even
  deriving DecidableEq, Repr

/-- The decimal `significand * 10 ^ exponent`. -/
structure Scientific where
  significand : Nat
  exponent : Int
  deriving DecidableEq, Repr

/-- Decimal digits of a natural, most significant first. -/
def digitsOf (n : Nat) : List Char := Nat.toDigits 10 n

namespace Scientific

/-- The same decimal without trailing zeros, dividing at most `fuel` times. -/
def trim : Nat → Scientific → Scientific
  | 0, d => d
  | fuel + 1, d =>
    if d.significand ≠ 0 ∧ d.significand % 10 = 0 then
      trim fuel ⟨d.significand / 10, d.exponent + 1⟩
    else d

/-- Exponent of the leading digit. -/
def leading (d : Scientific) : Int := d.exponent + (digitsOf d.significand).length - 1

end Scientific

/-- Whether `10 ^ k ≤ num / den`. -/
def powerLe (k : Int) (num den : Nat) : Bool :=
  Nat.pow 10 k.toNat * den ≤ num * Nat.pow 10 (-k).toNat

/-- The greatest `k` with `10 ^ k ≤ num / den`, for a positive quotient: an
estimate from the binary logarithms, put right by one step. -/
def floorLog10 (num den : Nat) : Int :=
  let estimate := (((Nat.log2 num : Int) - Nat.log2 den) * 30103).fdiv 100000
  if powerLe (estimate + 1) num den then estimate + 1
  else if powerLe estimate num den then estimate
  else estimate - 1

/-- The reals that round to one magnitude, in half units: from `low / 2` to
`high / 2`, ends included or not. -/
structure Interval where
  low : Nat
  high : Nat
  closed : Bool
  deriving DecidableEq, Repr

/-- The interval of a magnitude. -/
def intervalOf (f : Format) (magnitude : Nat) : Interval :=
  let u := f.units magnitude
  { low := u + f.units (magnitude - 1)
    high := u + f.units (magnitude + 1)
    closed := magnitude % 2 = 0 }

/-- Whether `candidate * 10 ^ k` lies in the interval; `one` is the number of
units in one. -/
def Interval.holds (i : Interval) (one : Nat) (k : Int) (candidate : Nat) : Bool :=
  let x := 2 * candidate * one * Nat.pow 10 k.toNat
  let low := i.low * Nat.pow 10 (-k).toNat
  let high := i.high * Nat.pow 10 (-k).toNat
  if i.closed then low ≤ x && x ≤ high else low < x && x < high

/-- The point of the grid `10 ^ k` that lies in the interval, the nearer of
two. -/
def gridPoint (tie : Tie) (i : Interval) (units one : Nat) (k : Int) : Option Nat :=
  let num := units * Nat.pow 10 (-k).toNat
  let den := one * Nat.pow 10 k.toNat
  let below := num / den
  let above := below + 1
  match i.holds one k below, i.holds one k above with
  | false, false => none
  | true, false => some below
  | false, true => some above
  | true, true =>
    let rest := num % den
    if 2 * rest < den then some below
    else if den < 2 * rest then some above
    else match tie with
      | .away => some above
      | .even => some (if below % 2 = 0 then below else above)

/-- The first grid with a point in the interval, from `10 ^ k` downward. -/
def firstGrid (tie : Tie) (i : Interval) (units one : Nat) : Nat → Int → Scientific
  | 0, k => ⟨units * Nat.pow 10 (-k).toNat / (one * Nat.pow 10 k.toNat), k⟩
  | fuel + 1, k =>
    match gridPoint tie i units one k with
    | some c => ⟨c, k⟩
    | none => firstGrid tie i units one fuel (k - 1)

/-- Grids tried: seventeen digits tell any two 64-bit numbers apart. -/
def gridLimit : Nat := 17

/-- The shortest decimal that rounds to the given magnitude. -/
def shortest (f : Format) (tie : Tie) (magnitude : Nat) : Scientific :=
  if magnitude = 0 then ⟨0, 0⟩
  else
    let u := f.units magnitude
    let first := floorLog10 u f.one
    (firstGrid tie (intervalOf f magnitude) u f.one gridLimit first).trim (gridLimit + 1)

end Arcbase.Decimal
