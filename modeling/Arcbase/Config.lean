set_option autoImplicit false

/-!
# Graph configuration
-/

namespace Arcbase

/-- The settings of a graph, each with a default. -/
structure Config where
  name : String := "graph"
  /-- Lock wait in milliseconds where a request gives none. -/
  defaultTimeout : Nat := 0
  /-- How often one thread may hold one vertex at a time. -/
  recursionLimit : Nat := 112
  /-- Longest identifier, in bytes. -/
  maxIdentifierLength : Nat := 2047
  maxRelationships : Nat := 16383
  maxVertexTypes : Nat := 255
  deriving DecidableEq, Repr

end Arcbase
