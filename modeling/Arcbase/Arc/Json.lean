import Arcbase.Arc.Kind
import Arcbase.Json.Printer
import Arcbase.Json.Reader
set_option autoImplicit false

/-!
# Arc values as JSON

An arc value is an object with its storage form under `type` and its number under
`value`; without a number there is no member `value`.
-/

namespace Arcbase

open Json (Reader)

namespace ArcKind

def toJson (k : ArcKind) : Json := .text k.name

def read : Reader ArcKind := Reader.choice ofName?

end ArcKind

namespace ArcValue

/-- The number alone. -/
def number? : ArcValue → Option Json
  | empty => none
  | integer i => some (.ofInt i.toInt)
  | unsigned u => some (.ofNat u.toNat)
  | real r => some (.ofBinary .json32 r)

/-- An arc value as JSON. -/
def toJson (v : ArcValue) : Json :=
  .record <| ("type", .text v.form) :: match v.number? with
    | some number => [("value", number)]
    | none => []

/-- A value of each storage form. -/
def ofEachForm : List ArcValue := [empty, integer 0, unsigned 0, real .zero]

/-- Reads an arc value. -/
def read : Reader ArcValue
  | 0, _ => none
  | depth + 1, j => do
    let t ← Json.tagged? depth j
    match ← t.form? false form ofEachForm depth with
    | empty => t.nothing.map fun _ => empty
    | integer _ => (t.read Reader.int32 depth).map integer
    | unsigned _ => (t.read Reader.uint32 depth).map unsigned
    | real _ => (t.read Reader.binary32 depth).map real

end ArcValue

end Arcbase
