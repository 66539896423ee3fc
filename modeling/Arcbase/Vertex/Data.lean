import Arcbase.Arc.Index
import Arcbase.Vertex.Info
set_option autoImplicit false

/-!
# Vertices as they are stored

A stored vertex has its attributes and two arc indexes: the arcs it is the
initial of, and the regular arcs it is the terminal of.  A forward-only arc is
in its initial's index alone; its terminal only counts it.
-/

namespace Arcbase

/-- The attributes and arcs of a vertex. -/
structure VertexData where
  type : Option LabelCode := none
  manifestation : Manifestation
  out : ArcIndex := .empty
  /-- Regular inbound arcs, under their initials. -/
  inbound : ArcIndex := .empty
  /-- Number of forward-only inbound arcs. -/
  forwardOnlyIn : Nat := 0
  created : UInt32
  modified : UInt32
  expires : Option UInt32 := none
  properties : PropertyMap := .empty
  vector : Option (List Binary32) := none
  /-- Set when the vertex is taken out of its graph; handles may still hold it. -/
  deleted : Bool := false
  deriving Repr

namespace VertexData

/-- A vertex without arcs, as of a time. -/
def new (manifestation : Manifestation) (now : UInt32) : VertexData :=
  { manifestation, created := now, modified := now }

instance : Inhabited VertexData := ⟨new .real 0⟩

def indegree (d : VertexData) : Nat := d.inbound.size + d.forwardOnlyIn

def outdegree (d : VertexData) : Nat := d.out.size

def degree (d : VertexData) : Nat := d.indegree + d.outdegree

/-- A virtual vertex without arcs. -/
def isOrphan (d : VertexData) : Bool :=
  !d.deleted && d.manifestation == .virtual && d.degree == 0

/-- Makes a virtual vertex real. -/
def promote (d : VertexData) (now : UInt32) : VertexData :=
  if d.manifestation = .virtual then { d with manifestation := .real, modified := now } else d

def touch (d : VertexData) (now : UInt32) : VertexData := { d with modified := now }

/-- Drops type, properties and vector. -/
def strip (d : VertexData) (now : UInt32) : VertexData :=
  { d with type := none, properties := .empty, vector := none, modified := now }

/-- The arcs toward a neighbor that a filter accepts, outbound ones first. -/
def arcsBetween (d : VertexData) (neighbor : VertexKey) (filter : ArcFilter)
    (direction : Direction) : List StoredArc :=
  let out := if direction.includesOut then d.out.arcsTo neighbor else []
  let inward := if direction.includesIn then d.inbound.arcsTo neighbor else []
  (out ++ inward).filter filter.test

/-- The arcs a filter accepts, outbound ones first, each with its neighbor and
its side. -/
def matchingArcs (d : VertexData) (filter : ArcFilter) (direction : Direction) :
    List (VertexKey × Direction × StoredArc) :=
  let out := if direction.includesOut then d.out.matching filter else []
  let inward := if direction.includesIn then d.inbound.matching filter else []
  out.map (fun (n, a) => (n, .out, a)) ++ inward.map fun (n, a) => (n, .inward, a)

/-- Whether a filter accepts any arc, of all or of those toward some neighbors. -/
def hasMatchingArc (d : VertexData) (filter : ArcFilter) (direction : Direction)
    (neighbors : Option (List VertexKey)) : Bool :=
  match neighbors with
  | some keys => keys.any fun k => !(d.arcsBetween k filter direction).isEmpty
  | none => !(d.matchingArcs filter direction).isEmpty

end VertexData

end Arcbase
