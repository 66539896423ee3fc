import Arcbase.Decimal.Layout
set_option autoImplicit false

/-!
# Arc values

An arc carries at most one number, in one of three storage forms.  `toNumber`
is the number every comparison, filter and sum reads; the forms embed into it
without loss.
-/

namespace Arcbase

/-- The value stored with an arc. -/
inductive ArcValue where
  /-- no value -/
  | empty
  | integer (i : Int32)
  | unsigned (u : UInt32)
  | real (r : Binary32)
  deriving DecidableEq, Repr

namespace ArcValue

/-- The value as a 64-bit number; no value counts as zero. -/
def toNumber : ArcValue → Binary64
  | empty => .zero
  | integer i => .ofInt i.toInt
  | unsigned u => .ofNat u.toNat
  | real r => r.convert

def unsigned? : ArcValue → Option UInt32
  | unsigned u => some u
  | _ => none

/-- The value as an integer, for the two integral forms. -/
def integer? : ArcValue → Option Int
  | integer i => some i.toInt
  | unsigned u => some u.toNat
  | _ => none

/-- Name of the storage form. -/
def form : ArcValue → String
  | empty => "None"
  | integer _ => "Integer"
  | unsigned _ => "Unsigned"
  | real _ => "Real"

/-- The digits of the value, if there is one. -/
def digits? : ArcValue → Option String
  | empty => none
  | integer i => some (toString i.toInt)
  | unsigned u => some (toString u.toNat)
  | real r => some (Decimal.Layout.message.format r)

/-- The value for display; a dash when there is none. -/
def display (v : ArcValue) : String := v.digits?.getD "-"

/-- The value with its storage form, as quoted in diagnostics. -/
def quoted (v : ArcValue) : String :=
  match v with
  | real r => "Real(" ++ Decimal.Layout.literal.format r ++ ")"
  | _ => match v.digits? with
    | none => v.form
    | some digits => v.form ++ "(" ++ digits ++ ")"

/-- Whether two values have the same storage form. -/
def sameForm : ArcValue → ArcValue → Bool
  | empty, empty | integer _, integer _ | unsigned _, unsigned _ | real _, real _ => true
  | _, _ => false

/-- Equality as the numbers compare: equal zeros, no not-a-number equal to
itself. -/
def numericEq : ArcValue → ArcValue → Bool
  | empty, empty => true
  | integer i, integer j => i == j
  | unsigned u, unsigned v => u == v
  | real r, real s => r.eq s
  | _, _ => false

end ArcValue

end Arcbase
