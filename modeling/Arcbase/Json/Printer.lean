import Arcbase.Json.Basic
import Arcbase.Decimal.Layout
set_option autoImplicit false

/-!
# Writing JSON

The compact form: no blanks, and of all characters only quotes, backslashes and
control characters escaped.
-/

namespace Arcbase.Json

/-- A lower-case hexadecimal digit. -/
def hexDigit (n : Nat) : Char := Nat.digitChar n

/-- A character inside a string. -/
def escape (c : Char) : List Char :=
  if c = '"' then ['\\', '"']
  else if c = '\\' then ['\\', '\\']
  else if c = '\x08' then ['\\', 'b']
  else if c = '\x0c' then ['\\', 'f']
  else if c = '\n' then ['\\', 'n']
  else if c = '\r' then ['\\', 'r']
  else if c = '\t' then ['\\', 't']
  else if c.toNat < 32 then
    ['\\', 'u', '0', '0', hexDigit (c.toNat / 16), hexDigit (c.toNat % 16)]
  else [c]

/-- A string in quotes. -/
def quoted (s : List Char) : List Char := '"' :: s.flatMap escape ++ ['"']

/-- A string without text is written as the half of a surrogate pair. -/
def quotedText : JsonText → List Char
  | some s => quoted s.toList
  | none => "\"\\ud800\"".toList

mutual

/-- The compact form of a value. -/
def print : Json → List Char
  | .null => "null".toList
  | .bool true => "true".toList
  | .bool false => "false".toList
  | .number digits => digits
  | .string s => quotedText s
  | .array [] => ['[', ']']
  | .array (item :: rest) => '[' :: print item ++ printItems rest
  | .object [] => ['\x7b', '\x7d']
  | .object ((name, value) :: rest) =>
    '\x7b' :: quotedText name ++ ':' :: print value ++ printMembers rest

/-- The items after the first, and the closing bracket. -/
def printItems : List Json → List Char
  | [] => [']']
  | item :: rest => ',' :: print item ++ printItems rest

/-- The members after the first, and the closing brace. -/
def printMembers : List (JsonText × Json) → List Char
  | [] => ['\x7d']
  | (name, value) :: rest => ',' :: quotedText name ++ ':' :: print value ++ printMembers rest

end

/-- The compact form of a value, as a string. -/
def render (j : Json) : String := String.ofList j.print

/-- A number with the digits of a layout; what is not finite becomes null. -/
def ofBinary {f : Binary.Format} (layout : Decimal.Layout) (x : Binary f) : Json :=
  if x.isFinite then .number (layout.format x).toList else .null

end Arcbase.Json
