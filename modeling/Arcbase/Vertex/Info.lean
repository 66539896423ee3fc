import Arcbase.Property.Map
import Arcbase.Vertex.Key
set_option autoImplicit false

/-!
# Vertices as callers see them
-/

namespace Arcbase

/-- A real vertex stays until it is deleted; a virtual one exists only while it
has arcs. -/
inductive Manifestation where
  | real
  | virtual
  deriving DecidableEq, Repr

namespace Manifestation

def name : Manifestation → String
  | real => "Real"
  | virtual => "Virtual"

def all : List Manifestation := [real, virtual]

end Manifestation

/-- How a caller opens a vertex. -/
inductive OpenMode where
  /-- shared access to an existing vertex -/
  | readonly
  /-- exclusive access to an existing vertex, which becomes real -/
  | append
  /-- exclusive access; a missing vertex is created -/
  | write
  deriving DecidableEq, Repr

namespace OpenMode

def name : OpenMode → String
  | readonly => "Readonly"
  | append => "Append"
  | write => "Write"

def all : List OpenMode := [readonly, append, write]

end OpenMode

/-- The attributes of a vertex at one moment. -/
structure VertexInfo where
  id : String
  key : VertexKey
  type : Option String
  manifestation : Manifestation
  indegree : Nat
  outdegree : Nat
  created : UInt32
  modified : UInt32
  /-- Without a time the vertex never expires. -/
  expires : Option UInt32
  properties : PropertyMap
  vector : Option (List Binary32)
  deriving Repr

namespace VertexInfo

def degree (v : VertexInfo) : Nat := v.indegree + v.outdegree

def isVirtual (v : VertexInfo) : Bool := v.manifestation == .virtual

end VertexInfo

end Arcbase
