import Arcbase.Snapshot.Basic
import Arcbase.Store.Basic
set_option autoImplicit false

/-!
# Taking and restoring snapshots

A snapshot reads one vertex after the other, each held readonly meanwhile.  An
empty graph is refilled from a snapshot: attributes and values are taken as they
are, but every arc has to carry a value of its kind, and forward-only and regular
inbound arcs must not mix.
-/

namespace Arcbase

namespace Store

/-- The attributes of a cell, as a snapshot lists them. -/
def vertexSnapshot (s : Store) (c : CellId) : VertexSnapshot :=
  let cell := s.cell c
  let d := cell.data
  { id := cell.id
    type := d.type.bind s.labels.types.decode?
    manifestation := d.manifestation
    created := d.created
    modified := d.modified
    expires := d.expires
    properties := d.properties
    vector := d.vector }

/-- The outbound arcs of a cell, as a snapshot lists them. -/
def arcSnapshots (s : Store) (c : CellId) : List ArcSnapshot :=
  (s.data c).out.entries.filterMap fun (neighbor, arc) =>
    (s.lookupKey neighbor).map fun t =>
      { initial := (s.cell c).id
        relationship := s.labels.relationshipLabel arc.relationship
        kind := arc.kind
        value := arc.value
        forwardOnly := arc.forwardOnly
        terminal := (s.cell t).id }

end Store

namespace Action

/-- The whole graph: vertices by identifier, arcs in the order of snapshots. -/
def snapshot (who : Caller) : Action Snapshot := do
  let s ← read id
  let cells := s.registered.mergeSort fun a b => (compare (s.cell a).id (s.cell b).id).isLE
  let parts ← cells.mapM fun c =>
    holding who c .readonly (read fun s => (s.vertexSnapshot c, s.arcSnapshots c))
  return { name := s.config.name
           vertices := parts.map (·.1)
           arcs := (parts.flatMap (·.2)).mergeSort ArcSnapshot.before }

end Action

/-! ## Restoring -/

/-- The vertices of a snapshot on their way into a store. -/
structure Staging where
  cells : AssocMap VertexKey Cell := .empty
  /-- Number of arcs. -/
  size : Nat := 0
  /-- What to schedule, in order. -/
  expiring : List (Expiring × UInt32) := []

namespace Staging

/-- Changes the data of a staged vertex. -/
def modify (g : Staging) (key : VertexKey) (f : VertexData → VertexData) : Staging :=
  match g.cells.get? key with
  | some cell => { g with cells := g.cells.insert key { cell with data := f cell.data } }
  | none => g

/-- Whether the identifier is staged. -/
def contains (g : Staging) (id : String) : Bool :=
  (g.cells.get? (.of id)).any fun cell => cell.id == id

def data (g : Staging) (key : VertexKey) : VertexData := ((g.cells.get? key).getD default).data

/-- What stands against an arc of a snapshot. -/
def arcFault? (g : Staging) (a : ArcSnapshot) : Option Error :=
  let terminal := g.data (.of a.terminal)
  if !g.contains a.initial then some (.vertex (.danglingEndpoint a.initial))
  else if !g.contains a.terminal then some (.vertex (.danglingEndpoint a.terminal))
  else if !a.kind.allows a.value then
    some (.data (.wrongValue a.initial a.terminal a.value a.kind))
  else if (if a.forwardOnly then !terminal.inbound.isEmpty else 0 < terminal.forwardOnlyIn) then
    some (.data (.mixedInarcs a.terminal))
  else none

/-- Stages an arc.  If its slot is filled already, the arc replaces the one on
the outbound side and nothing else changes. -/
def addArc (g : Staging) (a : ArcSnapshot) (relationship : LabelCode) : Staging :=
  let initial := VertexKey.of a.initial
  let terminal := VertexKey.of a.terminal
  let arc : StoredArc :=
    { relationship, kind := a.kind, value := a.value, forwardOnly := a.forwardOnly }
  let filled := ((g.data initial).out.get? terminal relationship a.kind).isSome
  let g := g.modify initial fun d => { d with out := (d.out.insert terminal arc).2 }
  if filled then g
  else
    let g := g.modify terminal fun d =>
      if a.forwardOnly then { d with forwardOnlyIn := d.forwardOnlyIn + 1 }
      else { d with inbound := (d.inbound.insert initial arc).2 }
    let expiring := match a.kind, a.value with
      | .timeExpires, .unsigned time =>
        g.expiring ++ [(.arc a.initial a.relationship a.terminal, time)]
      | _, _ => g.expiring
    { g with size := g.size + 1, expiring }

/-- The staged vertices in a store. -/
def commit (g : Staging) (s : Store) : Store :=
  let cells := g.cells.values
  let s := cells.foldl Store.addCell s
  let vertices := cells.filterMap fun cell =>
    cell.data.expires.map fun time => (Expiring.vertex cell.id, time)
  (g.expiring ++ vertices).foldl (fun s (item, time) => s.scheduleAt item time)
    { s with size := g.size }

end Staging

namespace Action

/-- Stages a vertex. -/
def stageVertex (g : Staging) (v : VertexSnapshot) : Action Staging := do
  refuse (← read (·.identifierFault? v.id))
  let key := VertexKey.of v.id
  match g.cells.get? key with
  | some other => fail (.vertex (.duplicateInSnapshot v.id other.id))
  | none =>
    let type ← v.type.mapM encodeType
    let data : VertexData :=
      { type
        manifestation := v.manifestation
        created := v.created
        modified := v.modified
        expires := v.expires
        properties := v.properties
        vector := v.vector }
    return { g with cells := g.cells.insert key { id := v.id, key, data } }

/-- Stages an arc. -/
def stageArc (g : Staging) (a : ArcSnapshot) : Action Staging := do
  match g.arcFault? a with
  | some e => fail e
  | none =>
    let relationship ← encodeRelationship a.relationship
    return g.addArc a relationship

/-- Fills an empty graph from a snapshot. -/
def restore (snapshot : Snapshot) : Action Unit := do
  checkWritable
  let g ← snapshot.vertices.foldlM stageVertex {}
  let g ← snapshot.arcs.foldlM stageArc g
  if 0 < (← read (·.order)) then
    fail (.vertex (.graphNotEmpty (← read (·.config.name))))
  update g.commit

end Action

end Arcbase
