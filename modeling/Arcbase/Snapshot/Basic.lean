import Arcbase.Vertex.Info
import Arcbase.Arc.Probe
set_option autoImplicit false

/-!
# Snapshots

A snapshot lists every vertex and every arc of a graph.  An arc is listed once,
with its initial and its terminal; the inbound side follows from that.
-/

namespace Arcbase

/-- The attributes of a vertex, apart from its arcs. -/
structure VertexSnapshot where
  id : String
  type : Option String := none
  manifestation : Manifestation := .real
  created : UInt32 := 0
  modified : UInt32 := 0
  expires : Option UInt32 := none
  properties : PropertyMap := .empty
  vector : Option (List Binary32) := none
  deriving Repr

/-- An arc with its ends. -/
structure ArcSnapshot where
  initial : String
  relationship : String
  kind : ArcKind
  value : ArcValue
  forwardOnly : Bool := false
  terminal : String
  deriving DecidableEq, Repr

namespace ArcSnapshot

/-- The order of the arcs of a snapshot: by initial, terminal, relationship and
kind. -/
def before (a b : ArcSnapshot) : Bool :=
  ((compare a.initial b.initial).then <|
    (compare a.terminal b.terminal).then <|
    (compare a.relationship b.relationship).then <|
    compare a.kind.rank b.kind.rank).isLE

end ArcSnapshot

/-- A whole graph. -/
structure Snapshot where
  name : String
  vertices : List VertexSnapshot := []
  arcs : List ArcSnapshot := []
  deriving Repr

end Arcbase
