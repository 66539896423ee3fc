import Arcbase.Time.Instant
import Arcbase.Decimal.Layout
set_option autoImplicit false

/-!
# Property values

The values that vertices carry under names: scalars, bytes, points in time and
lists of values.
-/

namespace Arcbase

/-- A value of a vertex property. -/
inductive PropertyValue where
  | null
  | bool (b : Bool)
  | int (i : Int64)
  | float (x : Binary64)
  | string (s : String)
  | bytes (b : List UInt8)
  | list (l : List PropertyValue)
  | instant (t : Time.Instant)
  deriving Repr

namespace PropertyValue

/-- Name of the value's type, as diagnostics spell it. -/
def typeName : PropertyValue → String
  | null => "NULL"
  | bool _ => "BOOLEAN"
  | int _ => "INTEGER"
  | float _ => "FLOAT"
  | string _ => "STRING"
  | bytes _ => "BYTES"
  | list _ => "LIST"
  | instant _ => "DATETIME"

def isNull : PropertyValue → Bool
  | null => true
  | _ => false

def isNumeric : PropertyValue → Bool
  | int _ | float _ => true
  | _ => false

/-- The value as an integer: integers, and floats without a fraction, moved
into range. -/
def integer? : PropertyValue → Option Int
  | int i => some i.toInt
  | float x =>
    if x.isWhole then some (x.toIntClamped (-9223372036854775808) 9223372036854775807) else none
  | _ => none

/-- The value as a number: numbers, and truth values as one and zero. -/
def number? : PropertyValue → Option Binary64
  | float x => some x
  | int i => some (.ofInt i.toInt)
  | bool b => some (if b then .ofInt 1 else .zero)
  | _ => none

def string? : PropertyValue → Option String
  | string s => some s
  | _ => none

/-- A text in quotes, with a backslash before every quote inside. -/
def quote (s : String) : String :=
  String.ofList ('"' :: s.toList.flatMap (fun c => if c = '"' then ['\\', '"'] else [c]) ++ ['"'])

/-- The value for display. -/
def display : PropertyValue → String
  | null => "null"
  | bool b => if b then "true" else "false"
  | int i => toString i.toInt
  | float x => Decimal.Layout.message.format x
  | string s => quote s
  | bytes b => s!"<bytes[{b.length}]>"
  | list l => "[" ++ ", ".intercalate (displayAll l) ++ "]"
  | instant t => t.display
where
  displayAll : List PropertyValue → List String
    | [] => []
    | v :: rest => display v :: displayAll rest

end PropertyValue

end Arcbase
