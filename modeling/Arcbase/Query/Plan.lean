import Arcbase.Query.Request
import Arcbase.Store.Basic
set_option autoImplicit false

/-!
# Plans

A plan is a query that has been checked and looked up in a store: labels are
codes, identifiers are keys, the sort key has its direction.  No vertex is held
meanwhile.  A label that was never registered is no error; nothing matches it.
-/

namespace Arcbase

/-- The vertex types a level accepts. -/
inductive TypeMatch where
  | code (c : LabelCode)
  | nothing
  deriving DecidableEq, Repr

/-- A vertex condition after look-up. -/
structure PlannedVertex where
  keys : Option (List VertexKey)
  type : Option TypeMatch
  manifestation : Option Manifestation
  deriving DecidableEq, Repr

/-- Whether a vertex of the given attributes passes. -/
def PlannedVertex.allows (p : PlannedVertex) (key : VertexKey) (type : Option LabelCode)
    (manifestation : Manifestation) : Bool :=
  p.keys.all (·.contains key) &&
    (match p.type with
      | none => true
      | some .nothing => false
      | some (.code c) => type == some c) &&
    p.manifestation.all (· == manifestation)

/-- An adjacency condition after look-up. -/
structure PlannedAdjacency where
  filter : ArcFilter
  direction : Direction
  neighbors : Option (List VertexKey)
  negate : Bool
  deriving DecidableEq, Repr

/-- Whether the arcs of a vertex fulfil the condition. -/
def PlannedAdjacency.holds (p : PlannedAdjacency) (d : VertexData) : Bool :=
  d.hasMatchingArc p.filter p.direction p.neighbors != p.negate

/-- A level after look-up. -/
structure PlannedLevel where
  filter : ArcFilter
  direction : Direction
  vertex : Option PlannedVertex
  adjacent : Option PlannedAdjacency
  predicate : Option Expression
  postFilter : Option Expression
  collect : CollectPolicy
  /-- Whether the first match ends the level: neither it nor any level below
  collects, and it is not the root. -/
  stopsAtMatch : Bool

/-- A query after look-up. -/
structure Plan where
  anchor : String
  root : PlannedLevel
  nested : List PlannedLevel
  rank : Option Expression
  sortBy : SortKey
  direction : SortDirection
  offset : Nat
  hits : Option Nat
  /-- Bound in milliseconds on every lock wait. -/
  timeout : Option Nat
  /-- Bound in milliseconds on the running time. -/
  timeLimit : Option Nat

namespace Store

/-- Looks a vertex condition up. -/
def planVertex (s : Store) (c : VertexCondition) : Except Error PlannedVertex := do
  let type ← match c.type with
    | none => pure none
    | some "" => throw (.query .emptyVertexType)
    | some label =>
      pure <| some <| match s.labels.types.lookup? label with
        | some code => .code code
        | none => .nothing
  return { keys := c.ids.map (·.map .of), type, manifestation := c.manifestation }

/-- Looks an adjacency condition up. -/
def planAdjacency (s : Store) (a : AdjacencyCondition) : Except Error PlannedAdjacency := do
  return { filter := ← s.filterOf a.probe
           direction := a.probe.direction
           neighbors := a.neighbors.map (·.map .of)
           negate := a.negate }

/-- Looks a level up, which may stop at its first match or not. -/
def planLevel (s : Store) (level : Level) (stopsAtMatch : Bool) : Except Error PlannedLevel := do
  return { filter := ← s.filterOf level.arc
           direction := level.arc.direction
           vertex := ← level.vertex.mapM s.planVertex
           adjacent := ← level.adjacent.mapM s.planAdjacency
           predicate := level.filter
           postFilter := level.postFilter
           collect := level.collect
           stopsAtMatch }

/-- Looks the levels below the root up. -/
def planNested (s : Store) : List Level → Except Error (List PlannedLevel)
  | [] => .ok []
  | level :: below => do
    let planned ← s.planLevel level (level.collect == .none && !anyCollects below)
    return planned :: (← s.planNested below)

end Store

namespace Query

/-- The sort key of a query and its direction.  A rank without a sort key sorts
by rank. -/
def order (q : Query) : Except QueryFault (SortKey × SortDirection) :=
  match q.sortBy, q.rank with
  | .rank, none => .error .rankRequired
  | .discovery, none => .ok (.discovery, .ascending)
  | .discovery, some _ => .ok (.rank, SortKey.rank.defaultDirection)
  | key, _ => .ok (key, q.direction.getD key.defaultDirection)

/-- The bound on the running time. -/
def timeLimit (q : Query) : Except QueryFault (Option Nat) :=
  if q.boundsTime then
    match q.timeout with
    | some t => .ok (some t)
    | none => .error .timeoutRequired
  else .ok none

/-- The plan of a query.  A chain of levels has to be shorter than the limit on
nesting, for the anchor of every level may be one and the same vertex. -/
def plan (q : Query) (s : Store) : Except Error Plan := do
  if let some fault := s.identifierFault? q.anchor then
    throw (.query (.anchor fault))
  if s.locks.limit ≤ q.depth then
    throw (.query (.tooDeep q.depth (s.locks.limit - 1)))
  let (sortBy, direction) ← q.order.mapError .query
  let timeLimit ← q.timeLimit.mapError .query
  let root ← s.planLevel q.root false
  let nested ← s.planNested q.nested
  return { anchor := q.anchor, root, nested, rank := q.rank, sortBy, direction
           offset := q.offset, hits := q.hits, timeout := q.timeout, timeLimit }

end Query

end Arcbase
