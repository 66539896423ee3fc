import Arcbase.Query.Walk
set_option autoImplicit false

/-!
# Results

A result is the pool of a walk, sorted and cut to a window.  Entries that tie
stay in the order of discovery, in either direction.  An aggregation reduces the
whole pool to totals.
-/

namespace Arcbase

namespace Entry

/-- The order of entries under a sort key.  A missing rank counts as minus
infinity, and what never expires as expiring at the greatest time. -/
def order (key : SortKey) (a b : Entry) : Ordering :=
  match key with
  | .discovery => .eq
  | .value => compare a.arc.value.toNumber.totalOrder b.arc.value.toNumber.totalOrder
  | .rank => compare (rankOrder a) (rankOrder b)
  | .identifier => compare a.vertex.id b.vertex.id
  | .internalKey => compare a.vertex.key.value b.vertex.key.value
  | .degree => compare a.vertex.degree b.vertex.degree
  | .indegree => compare a.vertex.indegree b.vertex.indegree
  | .outdegree => compare a.vertex.outdegree b.vertex.outdegree
  | .created => compare a.vertex.created.toNat b.vertex.created.toNat
  | .modified => compare a.vertex.modified.toNat b.vertex.modified.toNat
  | .expires => compare (expiry a) (expiry b)
where
  rankOrder (e : Entry) : Int := (e.rank.getD (.infinite true)).totalOrder
  expiry (e : Entry) : Nat := (e.vertex.expires.map UInt32.toNat).getD (UInt32.size - 1)

/-- Whether one entry may stand before another. -/
def before (key : SortKey) (direction : SortDirection) (a b : Entry) : Bool :=
  match direction with
  | .ascending => (order key a b).isLE
  | .descending => (order key b a).isLE

/-- The distinct far ends of entries, in their order. -/
def neighbors : List VertexKey → List Entry → List VertexInfo
  | _, [] => []
  | seen, e :: rest =>
    if seen.contains e.vertex.key then neighbors seen rest
    else e.vertex :: neighbors (e.vertex.key :: seen) rest

end Entry

/-- What a query answers. -/
structure QueryResult where
  entries : List Entry
  /-- Number of entries before the window was applied. -/
  total : Nat
  /-- Milliseconds gone by. -/
  elapsed : Nat
  visitedArcs : Nat
  visitedVertices : Nat
  deriving Repr

namespace QueryResult

/-- Identifiers of the distinct neighbors, in the order of the entries. -/
def neighbors (r : QueryResult) : List String := (Entry.neighbors [] r.entries).map (·.id)

def arcs (r : QueryResult) : List ArcRecord := r.entries.map (·.arc)

end QueryResult

/-- Totals over all that a query collects. -/
structure Aggregation where
  /-- Number of distinct neighbors. -/
  neighbors : Nat
  arcs : Nat
  valueSum : Binary64
  degree : Nat
  indegree : Nat
  outdegree : Nat
  deriving DecidableEq, Repr

/-- The totals of a pool; values are added in its order. -/
def Aggregation.ofPool (pool : List Entry) : Aggregation :=
  { neighbors := (Entry.neighbors [] pool).length
    arcs := pool.length
    valueSum := pool.foldl (fun sum e => sum.add e.arc.value.toNumber) .zero
    degree := pool.foldl (fun sum e => sum + e.vertex.degree) 0
    indegree := pool.foldl (fun sum e => sum + e.vertex.indegree) 0
    outdegree := pool.foldl (fun sum e => sum + e.vertex.outdegree) 0 }

namespace Plan

/-- The part of a sorted pool that lies in the window. -/
def window (p : Plan) (sorted : List Entry) : List Entry :=
  let rest := sorted.drop p.offset
  match p.hits with
  | some n => rest.take n
  | none => rest

/-- Carries a plan out and sorts what it collects. -/
def execute (p : Plan) (who : Caller) : Action QueryResult := do
  let w ← p.walk who
  return { entries := p.window (w.pool.mergeSort (Entry.before p.sortBy p.direction))
           total := w.pool.length
           elapsed := w.elapsed
           visitedArcs := w.visitedArcs
           visitedVertices := w.visitedVertices }

/-- Carries a plan out and totals what it collects. -/
def aggregate (p : Plan) (who : Caller) : Action Aggregation := do
  return .ofPool (← p.walk who).pool

end Plan

namespace Action

/-- The plan of a query on this store. -/
def plan (q : Query) : Action Plan := do
  ofExcept (← read q.plan)

/-- Answers a query. -/
def neighborhood (who : Caller) (q : Query) : Action QueryResult := do
  (← plan q).execute who

/-- Totals a query; its window does not matter. -/
def aggregate (who : Caller) (q : Query) : Action Aggregation := do
  (← plan q).aggregate who

/-- The distinct terminals of a vertex's outbound arcs. -/
def terminals (who : Caller) (anchor : String) (relationship : Option String)
    (timeout : Option Nat) : Action (List String) := do
  let probe := Probe.along (relationship.getD Probe.wildcard) .out
  return (← neighborhood who (.oneLevel anchor probe timeout)).neighbors

/-- The distinct initials of a vertex's inbound arcs. -/
def initials (who : Caller) (anchor : String) (relationship : Option String)
    (timeout : Option Nat) : Action (List String) := do
  let probe := Probe.along (relationship.getD Probe.wildcard) .inward
  return (← neighborhood who (.oneLevel anchor probe timeout)).neighbors

/-- The outbound arcs of a vertex. -/
def outarcs (who : Caller) (anchor : String) (timeout : Option Nat) :
    Action (List ArcRecord) := do
  return (← neighborhood who (.oneLevel anchor { Probe.any with direction := .out } timeout)).arcs

/-- The inbound arcs of a vertex. -/
def inarcs (who : Caller) (anchor : String) (timeout : Option Nat) :
    Action (List ArcRecord) := do
  return (← neighborhood who (.oneLevel anchor { Probe.any with direction := .inward } timeout)).arcs

end Action

end Arcbase
