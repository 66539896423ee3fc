import Arcbase.Digest
set_option autoImplicit false

/-!
# Vertex keys

The key of a vertex is the digest of its identifier, so an identifier has the
same key in every graph.  Locks on several vertices are taken in the order of
their keys.
-/

namespace Arcbase

/-- The internal identity of a vertex, below `2 ^ 128`. -/
structure VertexKey where
  value : Nat
  deriving DecidableEq, Repr, Inhabited

namespace VertexKey

/-- The key of an identifier. -/
def of (id : String) : VertexKey := ⟨(Digest.ofString id).toNat⟩

/-- Thirty-two hexadecimal digits. -/
def hex (k : VertexKey) : String :=
  let digits := Nat.toDigits 16 k.value
  String.ofList (List.replicate (32 - digits.length) '0' ++ digits)

end VertexKey

end Arcbase
