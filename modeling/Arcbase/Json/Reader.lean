import Arcbase.Decimal.Reading
import Arcbase.Json.Parser
set_option autoImplicit false

/-!
# Typed readers

A reader turns a JSON value into a value of some type, or refuses it.  It is given
the number of containers that may still be nested around what it reads; members
that no reader asks for may nest as they like.

Records are read from objects, whose unknown members are skipped and whose known
ones must not repeat, or from arrays that list the members in order.
-/

namespace Arcbase.Json

/-! ## Numbers in JSON

A number without fraction and exponent is an integer if it fits 64 bits, with or
without a sign; `-0` and all other numbers are binary numbers.  A number too large
to be finite is none at all.
-/

/-- The value of decimal digits. -/
def valueOf (digits : List Char) : Nat :=
  digits.foldl (fun n c => 10 * n + Decimal.digitValue c) 0

/-- The sign of a number, and its text without. -/
def unsignedText : List Char → Bool × List Char
  | '-' :: rest => (true, rest)
  | cs => (false, cs)

/-- The least and the greatest integer. -/
def integerRange : Int × Int := (-9223372036854775808, 18446744073709551615)

/-- A number as an integer, if it is one. -/
def integerOf? (number : List Char) : Option Int :=
  let (negative, digits) := unsignedText number
  if digits.all Char.isDigit then
    let n : Int := valueOf digits
    let i := if negative then -n else n
    if negative ∧ n = 0 then none
    else if integerRange.1 ≤ i ∧ i ≤ integerRange.2 then some i
    else none
  else none

/-- The exponent after the digits of a number. -/
def exponentOf : List Char → Int
  | _ :: '-' :: digits => -(valueOf digits : Int)
  | _ :: '+' :: digits => valueOf digits
  | _ :: digits => valueOf digits
  | [] => 0

/-- The decimal that a number stands for. -/
def literalOf (number : List Char) : Decimal.Literal :=
  let (negative, cs) := unsignedText number
  let (whole, cs) := digits cs
  let (fraction, cs) := match cs with
    | '.' :: rest => digits rest
    | _ => ([], cs)
  .ofDigits negative whole fraction (exponentOf cs)

/-- A number in the 64-bit format; nothing if it is too large. -/
def binary64Of? (number : List Char) : Option Binary64 := (literalOf number).toBinary64?

/-- A number in the 32-bit format: an integer is rounded once, and any other
number goes through the 64-bit format, from which it may become infinite. -/
def binary32Of? (number : List Char) : Option Binary32 :=
  match integerOf? number with
  | some i => some (.ofInt i)
  | none => (binary64Of? number).map Binary.convert

/-! ## Readers -/

/-- Reads a value that may nest so many containers. -/
abbrev Reader (α : Type) := Nat → Json → Option α

/-- Containers that may be nested. -/
def nestingLimit : Nat := 127

namespace Reader

/-! ### Scalars -/

def bool : Reader Bool
  | _, .bool b => some b
  | _, _ => none

def text : Reader String
  | _, .string s => s
  | _, _ => none

/-- An integer in a range. -/
def integer (low high : Int) : Reader Int
  | _, .number digits => (integerOf? digits).filter fun i => low ≤ i && i ≤ high
  | _, _ => none

/-- A natural number below a bound. -/
def natural (bound : Nat) : Reader Nat := fun depth j =>
  (integer 0 (bound - 1) depth j).map Int.toNat

def uint8 : Reader UInt8 := fun depth j => (natural UInt8.size depth j).map .ofNat

def uint32 : Reader UInt32 := fun depth j => (natural UInt32.size depth j).map .ofNat

def int32 : Reader Int32 := fun depth j =>
  (integer (-2147483648) 2147483647 depth j).map .ofInt

def int64 : Reader Int64 := fun depth j =>
  (integer (-9223372036854775808) 9223372036854775807 depth j).map .ofInt

def binary64 : Reader Binary64
  | _, .number digits => binary64Of? digits
  | _, _ => none

def binary32 : Reader Binary32
  | _, .number digits => binary32Of? digits
  | _, _ => none

/-! ### Containers -/

/-- Null, or a value. -/
def nullable {α : Type} (r : Reader α) : Reader (Option α)
  | _, .null => some none
  | depth, j => (r depth j).map some

/-- An array of values. -/
def list {α : Type} (r : Reader α) : Reader (List α)
  | depth + 1, .array items => items.mapM (r depth)
  | _, _ => none

/-- An object of values under any names. -/
def dictionary {α : Type} (r : Reader α) : Reader (List (String × α))
  | depth + 1, .object members => members.mapM fun (name, value) => do
    return (← name, ← r depth value)
  | _, _ => none

/-- One of some names, alone or as the only member of an object, with null. -/
def choice {α : Type} (ofName? : String → Option α) : Reader α
  | _, .string s => s.bind ofName?
  | _ + 1, .object [(some name, .null)] => ofName? name
  | _, _ => none

end Reader

/-! ### Records -/

/-- The members of a record, as far as they are given. -/
structure Members where
  /-- Whether they are listed in order, without names. -/
  positional : Bool
  given : List (String × Json)

/-- Collects the known members of an object; a known name must not repeat, and
every name has to be text. -/
def knownMembers? (names : List String) :
    List (String × Json) → List (JsonText × Json) → Option (List (String × Json))
  | given, [] => some given
  | _, (none, _) :: _ => none
  | given, (some name, value) :: rest =>
    if !names.contains name then knownMembers? names given rest
    else if given.any fun (n, _) => n == name then none
    else knownMembers? names (given ++ [(name, value)]) rest

/-- The members of a record with the given names. -/
def Members.ofJson? (names : List String) : Json → Option Members
  | .object members => (knownMembers? names [] members).map fun given => ⟨false, given⟩
  | .array items =>
    if items.length ≤ names.length then some ⟨true, names.zip items⟩ else none
  | _ => none

namespace Members

def get? (m : Members) (name : String) : Option Json :=
  (m.given.find? fun (n, _) => n == name).map Prod.snd

/-- A member that has to be given. -/
def required {α : Type} (m : Members) (name : String) (r : Reader α) (depth : Nat) : Option α := do
  r depth (← m.get? name)

/-- A member that counts as null when an object lacks it. -/
def optional {α : Type} (m : Members) (name : String) (r : Reader α) (depth : Nat) :
    Option (Option α) :=
  match m.get? name with
  | some j => r.nullable depth j
  | none => if m.positional then none else some none

/-- A member with a default. -/
def withDefault {α : Type} (m : Members) (name : String) (default : α) (r : Reader α)
    (depth : Nat) : Option α :=
  match m.get? name with
  | some j => r depth j
  | none => some default

end Members

/-- A record: its members are read one container further down. -/
def Reader.record {α : Type} (names : List String) (r : Nat → Members → Option α) : Reader α
  | depth + 1, j => (Members.ofJson? names j).bind (r depth)
  | 0, _ => none

/-! ### Tagged values -/

mutual

/-- Whether every part of a value could be read: all strings are text, all
numbers finite, and the nesting is not too deep. -/
def isReadable : Nat → Json → Bool
  | _, .string s => s.isSome
  | _, .number digits => (integerOf? digits).isSome || (binary64Of? digits).isSome
  | depth, .array items => 0 < depth && allReadable (depth - 1) items
  | depth, .object members => 0 < depth && membersReadable (depth - 1) members
  | _, _ => true

def allReadable : Nat → List Json → Bool
  | _, [] => true
  | depth, item :: rest => isReadable depth item && allReadable depth rest

def membersReadable : Nat → List (JsonText × Json) → Bool
  | _, [] => true
  | depth, (name, value) :: rest =>
    name.isSome && isReadable depth value && membersReadable depth rest

end

/-- How a value with a tag is written. -/
inductive TagStyle where
  /-- an array of the tag and its content -/
  | pair
  /-- an object with the tag in front of its content, or without content -/
  | tagFirst
  /-- an object with the content in front of its tag -/
  | contentFirst
  deriving DecidableEq, Repr

/-- A tag and what it marks. -/
structure Tagged where
  style : TagStyle
  tag : Json
  /-- What the tag marks; it may be missing. -/
  content : Option Json

/-- The tag and the content of a value: members `type` and `value` of an object,
or the two items of an array.  Content in front of its tag has to be readable as
a whole. -/
def tagged? : Nat → Json → Option Tagged
  | depth, .object members => do
    let given ← knownMembers? ["type", "value"] [] members
    match given with
    | [("type", tag)] => some ⟨.tagFirst, tag, none⟩
    | [("type", tag), ("value", content)] => some ⟨.tagFirst, tag, some content⟩
    | [("value", content), ("type", tag)] =>
      if isReadable depth content then some ⟨.contentFirst, tag, some content⟩ else none
    | _ => none
  | _, .array [tag, content] => some ⟨.pair, tag, some content⟩
  | _, _ => none

namespace Tagged

/-- The form that the tag names.  In a pair it is the name alone.  A value that is
`held`, because it lies in content in front of its tag, may give the form's place
in a pair, and an empty object for the null of a member. -/
def form? {α : Type} (t : Tagged) (held : Bool) (name : α → String) (forms : List α)
    (depth : Nat) : Option α :=
  let named (s : String) : Option α := forms.find? fun f => name f == s
  match t.style, t.tag with
  | .pair, .string s => s.bind named
  | .pair, .number digits =>
    if held then (integerOf? digits).bind fun i => if 0 ≤ i then forms[i.toNat]? else none
    else none
  | .pair, _ => none
  | _, .object [(some s, .object [])] => if held then named s else none
  | _, tag => Reader.choice named depth tag

/-- Content that may be missing, and is null otherwise. -/
def nothing (t : Tagged) : Option Unit :=
  match t.content with
  | none | some .null => some ()
  | some _ => none

/-- Content that has to be there. -/
def read {α : Type} (t : Tagged) (r : Reader α) (depth : Nat) : Option α := do
  r depth (← t.content)

end Tagged

end Arcbase.Json
