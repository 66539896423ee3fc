import Arcbase.Arc.Value
set_option autoImplicit false

/-!
# Arc kinds

Every arc has exactly one kind, which fixes the storage form of its value and
the closed interval in which the value lies.

| Kind | Form | Domain |
|------|------|--------|
| `static` | none | |
| `similarity` | real | -1 to 1 |
| `distance` | real | 0 to the largest real |
| `integer` | integer | all |
| `hash`, `unsigned`, `counter`, the times | unsigned | all |
| `float`, `accumulator` | real | all finite |

A number given by a caller enters through `coerce`, which refuses what lies
outside the domain.  Sums of counters and accumulators enter through
`saturate`, which moves them to the nearer end instead.
-/

namespace Arcbase

/-- What an arc's value means, and how it is stored. -/
inductive ArcKind where
  | static
  | similarity
  | distance
  | hash
  | integer
  | unsigned
  | float
  | counter
  | accumulator
  | timeCreated
  | timeModified
  | timeExpires
  deriving DecidableEq, Repr

/-- Why a number is no value of a kind. -/
inductive ValueFault where
  | notFinite (raw : Binary64)
  | outside (raw low high : Binary64)
  | expirationRequired
  | deltaNotFinite (delta : Binary64)
  deriving DecidableEq, Repr

/-- The wording of a fault. -/
def ValueFault.message : ValueFault → String
  | notFinite raw => text raw ++ " is not a finite number"
  | outside raw low high => text raw ++ " outside " ++ text low ++ "..=" ++ text high
  | expirationRequired => "expiration time required"
  | deltaNotFinite delta => "delta " ++ text delta ++ " is not finite"
where
  text (x : Binary64) : String := Decimal.Layout.message.format x

namespace ArcKind

/-- All kinds, in their canonical order. -/
def all : List ArcKind :=
  [static, similarity, distance, hash, integer, unsigned, float, counter, accumulator,
    timeCreated, timeModified, timeExpires]

/-- Place in the canonical order. -/
def rank (k : ArcKind) : Nat := all.idxOf k

/-- Full name, as snapshots spell it. -/
def name : ArcKind → String
  | static => "Static"
  | similarity => "Similarity"
  | distance => "Distance"
  | hash => "Hash"
  | integer => "Integer"
  | unsigned => "Unsigned"
  | float => "Float"
  | counter => "Counter"
  | accumulator => "Accumulator"
  | timeCreated => "TimeCreated"
  | timeModified => "TimeModified"
  | timeExpires => "TimeExpires"

/-- Short name, as diagnostics and dumps spell it. -/
def mnemonic : ArcKind → String
  | static => "M_STAT"
  | similarity => "M_SIM"
  | distance => "M_DIST"
  | hash => "M_LSH"
  | integer => "M_INT"
  | unsigned => "M_UINT"
  | float => "M_FLT"
  | counter => "M_CNT"
  | accumulator => "M_ACC"
  | timeCreated => "M_TMC"
  | timeModified => "M_TMM"
  | timeExpires => "M_TMX"

/-- The kind of a full name. -/
def ofName? (s : String) : Option ArcKind := all.find? fun k => k.name == s

/-- Counters and accumulators add on reconnect instead of overwriting. -/
def isAccumulating : ArcKind → Bool
  | counter | accumulator => true
  | _ => false

def isTime : ArcKind → Bool
  | timeCreated | timeModified | timeExpires => true
  | _ => false

/-- The largest 32-bit real. -/
def largestReal : Binary64 := (Binary.largest : Binary32).convert

/-- The ends of the domain; both belong to it. -/
def bounds : ArcKind → Binary64 × Binary64
  | static => (.zero, .zero)
  | similarity => (.ofInt (-1), .ofInt 1)
  | distance => (.zero, largestReal)
  | integer => (.ofInt (-2147483648), .ofInt 2147483647)
  | float | accumulator => (largestReal.neg, largestReal)
  | hash | unsigned | counter | timeCreated | timeModified | timeExpires =>
    (.zero, .ofInt 4294967295)

/-- A number in the kind's storage form: integers drop the fraction and end at
their range, reals are rounded. -/
def store (k : ArcKind) (raw : Binary64) : ArcValue :=
  match k with
  | static => .empty
  | integer => .integer (Int32.ofInt (raw.toIntClamped (-2147483648) 2147483647))
  | similarity | distance | float | accumulator => .real raw.convert
  | hash | unsigned | counter | timeCreated | timeModified | timeExpires =>
    .unsigned (UInt32.ofNat (raw.toIntClamped 0 4294967295).toNat)

/-- A caller's number as a value of the kind, or why it is none.  A static arc
takes any finite number and drops it. -/
def coerce (k : ArcKind) (raw : Binary64) : Except ValueFault ArcValue :=
  let (low, high) := k.bounds
  if !raw.isFinite then .error (.notFinite raw)
  else if k ≠ static ∧ (raw.lt low || high.lt raw) then .error (.outside raw low high)
  else .ok (k.store raw)

/-- A number moved into the domain; what is no number goes to the lower end. -/
def clamp (k : ArcKind) (raw : Binary64) : Binary64 :=
  let (low, high) := k.bounds
  if raw.isNaN then low
  else if raw.lt low then low
  else if high.lt raw then high
  else raw

/-- The value nearest to a number that may lie outside the domain. -/
def saturate (k : ArcKind) (raw : Binary64) : ArcValue := k.store (k.clamp raw)

/-- Whether a value has the kind's storage form and lies in its domain. -/
def allows (k : ArcKind) (v : ArcValue) : Bool :=
  let (low, high) := k.bounds
  let raw := v.toNumber
  v.sameForm (k.store .zero) &&
    (k == static || (raw.isFinite && low.le raw && raw.le high))

/-- The value of a fresh arc for which the caller gives none. -/
def defaultValue (k : ArcKind) (now : UInt32) : ArcValue :=
  if k.isTime then .unsigned now else k.store .zero

/-- The full names are different. -/
theorem ofName?_name (k : ArcKind) : ofName? k.name = some k := by
  cases k <;> decide

end ArcKind

end Arcbase
