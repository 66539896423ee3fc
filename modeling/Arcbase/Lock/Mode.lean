set_option autoImplicit false

/-!
# Access modes
-/

namespace Arcbase

/-- How a vertex is, or is to be, held. -/
inductive LockMode where
  | none
  | readonly
  | writable
  deriving DecidableEq, Repr

namespace LockMode

def name : LockMode → String
  | none => "None"
  | readonly => "Readonly"
  | writable => "Writable"

def all : List LockMode := [none, readonly, writable]

end LockMode

end Arcbase
