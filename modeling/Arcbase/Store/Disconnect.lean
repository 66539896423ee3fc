import Arcbase.Store.Opening
set_option autoImplicit false

/-!
# Removing arcs and vertices

A removal walks the arcs of a vertex that is held writable, neighbor by neighbor
in the order of their keys.  It holds each neighbor writable while it takes the
arcs between the two off both sides.  A neighbor that cannot be held keeps its
arcs; the removal then ends incomplete, and says how many arcs are gone and how
many are left.  Nothing is put back.
-/

namespace Arcbase

namespace Store

/-- Takes an arc from `i` to `t` off both of its sides; the two may be the same
cell.  Says whether it was there. -/
def detach (s : Store) (i t : CellId) (arc : StoredArc) : Bool × Store :=
  let initialKey := (s.cell i).key
  let terminalKey := (s.cell t).key
  let (old, out) := (s.data i).out.remove terminalKey arc.relationship arc.kind
  match old with
  | none => (false, s)
  | some removed =>
    let s := s.modifyData i fun d => { d with out }
    (true,
      if removed.forwardOnly then
        s.modifyData t fun d => { d with forwardOnlyIn := d.forwardOnlyIn - 1 }
      else
        s.modifyData t fun d =>
          { d with inbound := (d.inbound.remove initialKey arc.relationship arc.kind).2 })

/-- Takes off the arcs between an anchor and a neighbor, each seen from the
anchor: their number. -/
def detachAll (anchor neighbor : CellId) : List (Direction × StoredArc) → Store → Nat × Store
  | [], s => (0, s)
  | (direction, arc) :: rest, s =>
    let (gone, s) :=
      if direction = .inward then s.detach neighbor anchor arc else s.detach anchor neighbor arc
    let (n, s) := detachAll anchor neighbor rest s
    (n + gone.toNat, s)

/-- The arcs around a cell that a removal is after, by neighbor, ascending. -/
def groups (s : Store) (anchor : CellId) (filter : ArcFilter) (direction : Direction)
    (neighbor : Option VertexKey) : List (VertexKey × List (Direction × StoredArc)) :=
  let arcs := ((s.data anchor).matchingArcs filter direction).filter
    fun (n, _, _) => neighbor.all (· == n)
  let keys := (arcs.map (·.1)).eraseDups.mergeSort fun a b => a.value ≤ b.value
  keys.map fun k => (k, (arcs.filter fun (n, _, _) => n == k).map (·.2))

end Store

/-- What a removal has come to. -/
structure Removal where
  removed : Nat := 0
  remaining : Nat := 0
  /-- Why the first neighbor could not be held. -/
  cause : Option AccessError := none
  deriving DecidableEq, Repr

namespace Removal

/-- The count of a removal, or that it is incomplete. -/
def result (r : Removal) : Except Error Nat :=
  match r.cause with
  | some cause => .error (.arc (.incomplete r.removed r.remaining cause))
  | none => .ok r.removed

end Removal

namespace Store

/-- Takes the arcs of one group off, if the neighbor can be held. -/
def severGroup (who : Caller) (anchor : CellId) (key : VertexKey)
    (arcs : List (Direction × StoredArc)) (r : Removal) (s : Store) : Removal × Store :=
  if key = (s.cell anchor).key then
    let (n, s) := detachAll anchor anchor arcs s
    ({ r with removed := r.removed + n }, s)
  else match s.lookupKey key with
    | none => (r, s)
    | some neighbor =>
      match s.locks.acquire who.thread (s.lockItem neighbor) .writable with
      | .error cause =>
        ({ r with remaining := r.remaining + arcs.length, cause := r.cause.or (some cause) }, s)
      | .ok (g, locks) =>
        let (n, s) := detachAll anchor neighbor arcs { s with locks }
        let s := (s.modifyData anchor (·.touch who.now)).modifyData neighbor (·.touch who.now)
        ({ r with removed := r.removed + n }, s.drop g)

def severGroups (who : Caller) (anchor : CellId) :
    List (VertexKey × List (Direction × StoredArc)) → Removal → Store → Removal × Store
  | [], r, s => (r, s)
  | (key, arcs) :: rest, r, s =>
    let (r, s) := severGroup who anchor key arcs r s
    severGroups who anchor rest r s

end Store

namespace Action

/-- Removes the arcs of a cell that a filter accepts, of all neighbors or of
one.  The cell is held writable. -/
def sever (who : Caller) (anchor : CellId) (filter : ArcFilter) (direction : Direction)
    (neighbor : Option VertexKey) : Action Nat := ofFun fun s =>
  let (r, s) := s.severGroups who anchor (s.groups anchor filter direction neighbor) {}
  (r.result, { s with size := s.size - r.removed })

/-- Removes the arcs around a vertex that match a probe: their number. -/
def disconnect (who : Caller) (anchor : String) (probe : Probe) (neighbor : Option String) :
    Action Nat := do
  checkWritable
  let filter ← ofExcept (← read (·.filterOf probe))
  let c ← find anchor
  holding who c .writable do
    match neighbor with
    | none => sever who c filter probe.direction none
    | some id =>
      match ← read (·.lookup id) with
      | none => return 0
      | some n => sever who c filter probe.direction (some (← read fun s => (s.cell n).key))

/-- Deletes a vertex with all arcs it knows of.  If it is still the terminal of
forward-only arcs it becomes virtual instead.  If some neighbor cannot be held,
what is left of the vertex is scheduled for expiration at once. -/
def delete (who : Caller) (id : String) : Action Nat := do
  checkWritable
  match ← read (·.lookup id) with
  | none => return 0
  | some c =>
    holding who c .writable do
      update (·.modifyData c (·.strip who.now))
      match ← attempt (sever who c .all .any none) with
      | .error e =>
        if e.partialCount.isSome then
          update fun s =>
            (s.modifyData c fun d => { d with expires := some who.now }).scheduleAt
              (.vertex id) who.now
        fail e
      | .ok _ =>
        if 0 < (← read (·.data c)).forwardOnlyIn then
          update (·.modifyData c fun d => { d with manifestation := .virtual, expires := none })
        else
          update (·.remove c)
        return 1

end Action

end Arcbase
