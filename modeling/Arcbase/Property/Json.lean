import Arcbase.Error
import Arcbase.Json.Printer
import Arcbase.Json.Reader
import Arcbase.Property.Map
set_option autoImplicit false

/-!
# Property values as JSON

A value is an object with its type's name under `type` and its content under
`value`; the null value has no content.  Floats that are not finite are written
as null, which is no float to a reader.
-/

namespace Arcbase

namespace PropertyValue

open Json (Reader)

/-- Types of values, by the names they have in JSON. -/
inductive Form where
  | null
  | bool
  | int
  | float
  | string
  | bytes
  | list
  | instant
  deriving DecidableEq, Repr

/-- Name of a type in JSON. -/
def Form.name : Form → String
  | null => "Null"
  | bool => "Bool"
  | int => "Int"
  | float => "Float"
  | string => "String"
  | bytes => "Bytes"
  | list => "List"
  | instant => "DateTime"

def Form.all : List Form := [null, bool, int, float, string, bytes, list, instant]

/-- A value of a type with its content. -/
def tagged (form : Form) (content : Json) : Json :=
  .record [("type", .text form.name), ("value", content)]

/-- A value as JSON. -/
def toJson : PropertyValue → Json
  | null => .record [("type", .text Form.null.name)]
  | bool b => tagged .bool (.bool b)
  | int i => tagged .int (.ofInt i.toInt)
  | float x => tagged .float (.ofBinary .json64 x)
  | string s => tagged .string (.text s)
  | bytes b => tagged .bytes (.array (b.map fun byte => .ofNat byte.toNat))
  | list l => tagged .list (.array (toJsons l))
  | instant t => tagged .instant (.text t.format)
where
  toJsons : List PropertyValue → List Json
    | [] => []
    | v :: rest => toJson v :: toJsons rest

/-- Reads the content of a value; `items` reads those of a list. -/
def readContent (items : Reader PropertyValue) (depth : Nat) (form : Form) (t : Json.Tagged) :
    Option PropertyValue :=
  match form with
  | .null => t.nothing.map fun _ => null
  | .bool => (t.read Reader.bool depth).map bool
  | .int => (t.read Reader.int64 depth).map int
  | .float => (t.read Reader.binary64 depth).map float
  | .string => (t.read Reader.text depth).map string
  | .bytes => (t.read (Reader.list Reader.uint8) depth).map bytes
  | .list => (t.read (Reader.list items) depth).map list
  | .instant => ((t.read Reader.text depth).bind Time.Instant.parse?).map instant

/-- Reads a value, which is `held` if it lies in content in front of its tag.  The
items of a list lie two containers further down. -/
def readFrom (held : Bool) : Reader PropertyValue
  | 0, _ => none
  | depth + 1, j => do
    let t ← Json.tagged? depth j
    let form ← t.form? held Form.name Form.all depth
    let items : Reader PropertyValue := match depth with
      | 0 => fun _ _ => none
      | below + 1 => fun _ => readFrom (held || t.style == .contentFirst) below
    readContent items depth form t

/-- Reads a value. -/
def read : Reader PropertyValue := readFrom false

/-- The value that a JSON text stands for. -/
def parse (s : String) : Except Error PropertyValue :=
  match (Json.parse? s).bind (read Json.nestingLimit) with
  | some v => .ok v
  | none => .error (.data .malformed)

end PropertyValue

namespace PropertyMap

/-- The values under their names. -/
def toJson (m : PropertyMap) : Json := .record (m.entries.map fun (name, v) => (name, v.toJson))

/-- Reads an object of values. -/
def read : Json.Reader PropertyMap := fun depth j =>
  (Json.Reader.dictionary PropertyValue.read depth j).map ofList

end PropertyMap

end Arcbase
