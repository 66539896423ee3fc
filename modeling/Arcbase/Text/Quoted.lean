import Arcbase.Text.Classes
set_option autoImplicit false

/-!
# Quoted text for logs

A text in quotes in which every character shows: quotes, backslashes, control
characters, and characters that print nothing, may leave no trace, or attach to the
one before are written as escapes.
-/

namespace Arcbase.Text

/-- Whether a character does not show by itself. -/
def isHidden (c : Char) : Bool := isExtender c || isIgnorable c || isUnprintable c

/-- A character inside the quotes. -/
def escape (c : Char) : List Char :=
  if c = '"' ∨ c = '\\' then ['\\', c]
  else if c = '\t' then ['\\', 't']
  else if c = '\r' then ['\\', 'r']
  else if c = '\n' then ['\\', 'n']
  else if c.toNat = 0 then ['\\', '0']
  else if isHidden c then ['\\', 'u', '\x7b'] ++ Nat.toDigits 16 c.toNat ++ ['\x7d']
  else [c]

/-- A text in quotes. -/
def quoted (s : String) : String := String.ofList ('"' :: s.toList.flatMap escape ++ ['"'])

end Arcbase.Text
