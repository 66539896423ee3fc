import Arcbase.Query.Expression
set_option autoImplicit false

/-!
# Queries

A query walks the arcs around its anchor.  Its levels form a chain: every
candidate that a level accepts becomes the anchor of the next level, and has to
match there too.  What a level collects goes into one result, which is sorted and
cut to a window at the end.
-/

namespace Arcbase

/-! ## Levels -/

/-- Which candidates of a level are collected. -/
inductive CollectPolicy where
  /-- none; one match is enough, unless a deeper level collects -/
  | none
  /-- all that pass -/
  | collect
  /-- none, but all are visited -/
  | scan
  deriving DecidableEq, Repr

namespace CollectPolicy

def name : CollectPolicy → String
  | none => "None"
  | collect => "Collect"
  | scan => "Scan"

def all : List CollectPolicy := [none, collect, scan]

end CollectPolicy

/-- What a level asks of the vertex at the far end of an arc. -/
structure VertexCondition where
  /-- Without a list, every vertex. -/
  ids : Option (List String) := none
  type : Option String := none
  manifestation : Option Manifestation := none
  deriving DecidableEq, Repr

/-- What a level asks of its anchor before its arcs are looked at. -/
structure AdjacencyCondition where
  probe : Probe
  /-- Without a list, arcs to any neighbor count. -/
  neighbors : Option (List String) := none
  negate : Bool := false
  deriving DecidableEq, Repr

/-- One level of a query. -/
structure Level where
  arc : Probe := .any
  vertex : Option VertexCondition := none
  adjacent : Option AdjacencyCondition := none
  /-- Evaluated before a candidate is collected; it has to be true. -/
  filter : Option Expression := none
  /-- Evaluated after the deeper levels; unless it is true the candidate is
  dropped, with all that was collected beneath it. -/
  postFilter : Option Expression := none
  collect : CollectPolicy := .collect

/-- Whether any of some levels collects. -/
def anyCollects (levels : List Level) : Bool := levels.any fun l => l.collect == .collect

/-! ## Order -/

/-- What a result is sorted by. -/
inductive SortKey where
  /-- the order of discovery -/
  | discovery
  | value
  | rank
  | identifier
  | internalKey
  | degree
  | indegree
  | outdegree
  | created
  | modified
  | expires
  deriving DecidableEq, Repr

inductive SortDirection where
  | ascending
  | descending
  deriving DecidableEq, Repr

namespace SortDirection

def name : SortDirection → String
  | ascending => "Ascending"
  | descending => "Descending"

def all : List SortDirection := [ascending, descending]

end SortDirection

namespace SortKey

def name : SortKey → String
  | discovery => "None"
  | value => "Value"
  | rank => "Rank"
  | identifier => "Identifier"
  | internalKey => "InternalId"
  | degree => "Degree"
  | indegree => "InDegree"
  | outdegree => "OutDegree"
  | created => "TimeCreated"
  | modified => "TimeModified"
  | expires => "TimeExpires"

def all : List SortKey :=
  [discovery, value, rank, identifier, internalKey, degree, indegree, outdegree, created, modified,
    expires]

/-- The direction of a key for which none is given: values and ranks come
greatest first. -/
def defaultDirection : SortKey → SortDirection
  | value | rank => .descending
  | _ => .ascending

end SortKey

/-! ## Queries -/

/-- A query. -/
structure Query where
  anchor : String
  root : Level := {}
  /-- The levels below the root, from the top down. -/
  nested : List Level := []
  /-- The score of a collected entry. -/
  rank : Option Expression := none
  sortBy : SortKey := .discovery
  direction : Option SortDirection := none
  offset : Nat := 0
  /-- Without a number, all entries. -/
  hits : Option Nat := none
  /-- Bound in milliseconds on every lock wait. -/
  timeout : Option Nat := none
  /-- Whether `timeout` bounds the running time too. -/
  boundsTime : Bool := false

namespace Query

/-- Number of levels. -/
def depth (q : Query) : Nat := 1 + q.nested.length

/-- The query for the arcs of a vertex that match a probe. -/
def oneLevel (anchor : String) (arc : Probe) (timeout : Option Nat) : Query :=
  { anchor, root := { arc }, timeout }

end Query

end Arcbase
