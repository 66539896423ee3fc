import Arcbase.Query.Plan
import Arcbase.Store.Opening
set_option autoImplicit false

/-!
# Walks

A walk carries out a plan depth first.  At every level it looks at the arcs of
the level's anchor, one after the other; the vertex at the far end is held
readonly while its candidate is dealt with, and the anchors of all levels above
are held too.

A candidate is collected before the levels below it are entered, and dropped
again, with all that was collected beneath it, when they or the post-filter turn
it down.  What its expressions wrote into registers stays.
-/

namespace Arcbase

/-- A collected arc with the vertex at its far end. -/
structure Entry where
  arc : ArcRecord
  vertex : VertexInfo
  depth : Nat
  rank : Option Binary64
  deriving Repr

/-- How far a walk has come. -/
structure Walk where
  registers : Registers := .empty
  /-- Milliseconds gone by. -/
  elapsed : Nat := 0
  /-- What has been collected, in the order of discovery. -/
  pool : List Entry := []
  visitedArcs : Nat := 0
  visitedVertices : Nat := 0

namespace Walk

/-- The pool as it was when it had the given size. -/
def truncate (w : Walk) (size : Nat) : Walk := { w with pool := w.pool.take size }

def collect (w : Walk) (e : Entry) : Walk := { w with pool := w.pool ++ [e] }

/-- Names the expression and the arc, unless the error is one of queries
already. -/
def located (e : Expression) (c : Candidate) : Error → Error
  | .query fault => .query fault
  | cause => .query (.expressionFailed e.describe c.arc.anchor c.arc.neighbor cause.message)

/-- Evaluates an expression.  An error ends the walk. -/
def evaluate (w : Walk) (e : Expression) (c : Candidate) : Except Error (Binary64 × Walk) :=
  let outcome := e.evaluate c w.registers
  match outcome.result with
  | .ok x => .ok (x, { w with registers := outcome.registers
                              elapsed := w.elapsed + outcome.elapsed })
  | .error cause => .error (located e c cause)

/-- Whether a condition is true of a candidate; no condition is. -/
def passes (w : Walk) (condition : Option Expression) (c : Candidate) :
    Except Error (Bool × Walk) :=
  match condition with
  | none => .ok (true, w)
  | some e => (w.evaluate e c).map fun (x, w) => (truthy x, w)

/-- Collects a candidate if its level says so. -/
def collectCandidate (w : Walk) (policy : CollectPolicy) (rank : Option Expression)
    (c : Candidate) : Except Error Walk := do
  if policy = .collect then
    match rank with
    | none => return w.collect { arc := c.arc, vertex := c.vertex, depth := c.depth, rank := none }
    | some e =>
      let (x, w) ← w.evaluate e c
      return w.collect { arc := c.arc, vertex := c.vertex, depth := c.depth, rank := some x }
  else return w

/-- Refuses to go on once the time is up. -/
def checkTime (w : Walk) (limit : Option Nat) : Except Error Unit :=
  match limit with
  | some limit =>
    if limit < w.elapsed then .error (.access (.executionTimeout w.elapsed)) else .ok ()
  | none => .ok ()

end Walk

/-- An arc of a level's anchor: the vertex at its far end, the side, and what is
stored. -/
abbrev SeenArc := VertexKey × Direction × StoredArc

/-- The part of a walk beneath a candidate's vertex: whether it matched, and how
far the walk has come then. -/
abbrev Descent := CellId → Walk → Action (Bool × Walk)

namespace PlannedLevel

/-- The candidate of an arc. -/
def candidate (s : Store) (anchor neighbor : CellId) (direction : Direction) (arc : StoredArc)
    (depth : Nat) : Candidate :=
  let vertex := s.info neighbor
  { arc :=
      { anchor := (s.cell anchor).id
        relationship := s.labels.relationshipLabel arc.relationship
        direction
        kind := arc.kind
        value := arc.value
        forwardOnly := arc.forwardOnly
        neighbor := vertex.id }
    vertex
    depth }

/-- Whether the vertex condition of a level, if any, allows a vertex. -/
def allowsVertex (level : PlannedLevel) (s : Store) (c : CellId) : Bool :=
  let cell := s.cell c
  level.vertex.all fun v => v.allows cell.key cell.data.type cell.data.manifestation

/-- Deals with a candidate whose vertex is held and passed the vertex
condition; `beneath` walks the levels below. -/
def consider (level : PlannedLevel) (rank : Option Expression) (beneath : Descent)
    (neighbor : CellId) (c : Candidate) (w : Walk) : Action (Bool × Walk) := do
  let mark := w.pool.length
  let (passed, w) ← Action.ofExcept (w.passes level.predicate c)
  if !passed then return (false, w)
  let w ← Action.ofExcept (w.collectCandidate level.collect rank c)
  let (matched, w) ← beneath neighbor w
  if !matched then return (false, w.truncate mark)
  let (passed, w) ← Action.ofExcept (w.passes level.postFilter c)
  return if passed then (true, w) else (false, w.truncate mark)

/-- Visits one arc: whether its candidate survived every stage. -/
def visit (level : PlannedLevel) (who : Caller) (plan : Plan) (beneath : Descent)
    (anchor : CellId) (depth : Nat) (arc : SeenArc) (w : Walk) : Action (Bool × Walk) := do
  let (key, direction, stored) := arc
  Action.ofExcept (w.checkTime plan.timeLimit)
  let w := { w with visitedArcs := w.visitedArcs + 1 }
  match ← Action.read (·.lookupKey key) with
  | none => return (false, w)
  | some neighbor =>
    Action.holding who neighbor .readonly do
      let w := { w with visitedVertices := w.visitedVertices + 1 }
      let s ← Action.read id
      if level.allowsVertex s neighbor then
        level.consider plan.rank beneath neighbor (candidate s anchor neighbor direction stored depth) w
      else return (false, w)

/-- Visits arcs one after the other, up to the first match if that ends the
level: whether any candidate survived. -/
def visitAll (level : PlannedLevel) (visit : SeenArc → Walk → Action (Bool × Walk)) :
    List SeenArc → Bool → Walk → Action (Bool × Walk)
  | [], matched, w => pure (matched, w)
  | arc :: rest, matched, w => do
    let (survived, w) ← visit arc w
    if survived && level.stopsAtMatch then return (true, w)
    level.visitAll visit rest (matched || survived) w

/-- The arcs of an anchor that a level looks at: none if its adjacency condition
fails there. -/
def arcsAround (level : PlannedLevel) (d : VertexData) : List SeenArc :=
  if level.adjacent.all (·.holds d) then d.matchingArcs level.filter level.direction else []

end PlannedLevel

/-- Walks a chain of levels from an anchor that is held: whether any candidate of
the first level survived.  An empty chain always matches. -/
def walkLevels (who : Caller) (plan : Plan) : List PlannedLevel → Nat → Descent
  | [], _ => fun _ w => pure (true, w)
  | level :: below, depth => fun anchor w => do
    let arcs ← Action.read fun s => level.arcsAround (s.data anchor)
    level.visitAll (level.visit who plan (walkLevels who plan below (depth + 1)) anchor depth)
      arcs false w

namespace Plan

/-- Carries a plan out, the anchor being held meanwhile. -/
def walk (p : Plan) (who : Caller) : Action Walk := do
  let anchor ← Action.find p.anchor
  Action.holding who anchor .readonly do
    return (← walkLevels who p (p.root :: p.nested) 1 anchor {}).2

end Plan

end Arcbase
