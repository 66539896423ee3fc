set_option autoImplicit false

/-!
# JSON

JSON values as they are written: a number is its text, the members of an object
are in order and may repeat a name.
-/

namespace Arcbase

/-- The content of a JSON string; nothing if its escapes leave half of a
surrogate pair, which is no text. -/
abbrev JsonText := Option String

/-- A JSON value. -/
inductive Json where
  | null
  | bool (b : Bool)
  /-- a number, as it is written -/
  | number (text : List Char)
  | string (s : JsonText)
  | array (items : List Json)
  | object (members : List (JsonText × Json))
  deriving Repr, Inhabited

namespace Json

/-- A string of a text. -/
def text (s : String) : Json := .string (some s)

/-- An integer. -/
def ofInt (i : Int) : Json := .number (toString i).toList

/-- A natural number. -/
def ofNat (n : Nat) : Json := .number (toString n).toList

/-- An object with the given members. -/
def record (members : List (String × Json)) : Json :=
  .object (members.map fun (name, value) => (some name, value))

/-- The value, or null. -/
def orNull {α : Type} (f : α → Json) : Option α → Json
  | none => .null
  | some a => f a

end Json

end Arcbase
