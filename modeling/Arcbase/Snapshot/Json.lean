import Arcbase.Arc.Json
import Arcbase.Property.Json
import Arcbase.Snapshot.Basic
set_option autoImplicit false

/-!
# Snapshots as JSON

The compact text of a snapshot, members in a fixed order.  A reader takes the
members in any order; properties and vectors may be missing, and so may everything
that can be null.
-/

namespace Arcbase

open Json (Reader)

namespace Manifestation

def toJson (m : Manifestation) : Json := .text m.name

def ofName? (s : String) : Option Manifestation :=
  all.find? fun m => m.name == s

def read : Reader Manifestation := Reader.choice ofName?

end Manifestation

namespace VertexSnapshot

def toJson (v : VertexSnapshot) : Json :=
  .record
    [("id", .text v.id),
     ("vertex_type", Json.orNull Json.text v.type),
     ("manifestation", v.manifestation.toJson),
     ("created", .ofNat v.created.toNat),
     ("modified", .ofNat v.modified.toNat),
     ("expires", Json.orNull (fun t => .ofNat t.toNat) v.expires),
     ("properties", v.properties.toJson),
     ("vector", Json.orNull (fun l => .array (l.map (Json.ofBinary .json32))) v.vector)]

def read : Reader VertexSnapshot :=
  Reader.record
    ["id", "vertex_type", "manifestation", "created", "modified", "expires", "properties", "vector"]
    fun depth m => do
      return { id := ← m.required "id" Reader.text depth
               type := ← m.optional "vertex_type" Reader.text depth
               manifestation := ← m.required "manifestation" Manifestation.read depth
               created := ← m.required "created" Reader.uint32 depth
               modified := ← m.required "modified" Reader.uint32 depth
               expires := ← m.optional "expires" Reader.uint32 depth
               properties := ← m.withDefault "properties" .empty PropertyMap.read depth
               vector := ← m.withDefault "vector" none
                 (Reader.nullable (Reader.list Reader.binary32)) depth }

end VertexSnapshot

namespace ArcSnapshot

def toJson (a : ArcSnapshot) : Json :=
  .record
    [("initial", .text a.initial),
     ("relationship", .text a.relationship),
     ("kind", a.kind.toJson),
     ("value", a.value.toJson),
     ("forward_only", .bool a.forwardOnly),
     ("terminal", .text a.terminal)]

def read : Reader ArcSnapshot :=
  Reader.record ["initial", "relationship", "kind", "value", "forward_only", "terminal"]
    fun depth m => do
      return { initial := ← m.required "initial" Reader.text depth
               relationship := ← m.required "relationship" Reader.text depth
               kind := ← m.required "kind" ArcKind.read depth
               value := ← m.required "value" ArcValue.read depth
               forwardOnly := ← m.withDefault "forward_only" false Reader.bool depth
               terminal := ← m.required "terminal" Reader.text depth }

end ArcSnapshot

namespace Snapshot

def toJson (s : Snapshot) : Json :=
  .record
    [("name", .text s.name),
     ("vertices", .array (s.vertices.map VertexSnapshot.toJson)),
     ("arcs", .array (s.arcs.map ArcSnapshot.toJson))]

def read : Reader Snapshot :=
  Reader.record ["name", "vertices", "arcs"] fun depth m => do
    return { name := ← m.required "name" Reader.text depth
             vertices := ← m.required "vertices" (Reader.list VertexSnapshot.read) depth
             arcs := ← m.required "arcs" (Reader.list ArcSnapshot.read) depth }

/-- The text of a snapshot. -/
def exportText (s : Snapshot) : String := s.toJson.render

/-- The snapshot that a text stands for. -/
def parse (text : String) : Except Error Snapshot :=
  match (Json.parse? text).bind (read Json.nestingLimit) with
  | some s => .ok s
  | none => .error (.data .malformed)

end Snapshot

end Arcbase
