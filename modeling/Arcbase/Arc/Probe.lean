import Arcbase.Error
set_option autoImplicit false

/-!
# Probes: selecting arcs around a vertex

A probe names a relationship (or any), the sides to look at, a kind (or any) and
a comparison of the arc's number.  The same vocabulary serves removal, value
look-up, degrees, conditions of a connect and every level of a query.
-/

namespace Arcbase

/-- On which side of an arc the vertex stands from which it is seen. -/
inductive Direction where
  | out
  | inward
  | any
  deriving DecidableEq, Repr

namespace Direction

def includesOut : Direction → Bool
  | out | any => true
  | inward => false

def includesIn : Direction → Bool
  | inward | any => true
  | out => false

/-- The direction seen from the other end. -/
def reverse : Direction → Direction
  | out => inward
  | inward => out
  | any => any

def name : Direction → String
  | out => "Out"
  | inward => "In"
  | any => "Any"

def all : List Direction := [out, inward, any]

@[simp] theorem reverse_reverse (d : Direction) : d.reverse.reverse = d := by cases d <;> rfl

theorem includesOut_reverse (d : Direction) : d.reverse.includesOut = d.includesIn := by
  cases d <;> rfl

end Direction

/-- A comparison of an arc's number with given operands. -/
inductive Comparator where
  | any
  | eq (x : Binary64)
  | ne (x : Binary64)
  | lt (x : Binary64)
  | le (x : Binary64)
  | gt (x : Binary64)
  | ge (x : Binary64)
  /-- both ends included -/
  | range (low high : Binary64)
  deriving DecidableEq, Repr

namespace Comparator

/-- Whether a number passes. -/
def test (c : Comparator) (value : Binary64) : Bool :=
  match c with
  | any => true
  | eq x => value.eq x
  | ne x => !value.eq x
  | lt x => value.lt x
  | le x => value.le x
  | gt x => x.lt value
  | ge x => x.le value
  | range low high => low.le value && value.le high

def name : Comparator → String
  | any => "Any"
  | eq _ => "Eq"
  | ne _ => "Neq"
  | lt _ => "Lt"
  | le _ => "Lte"
  | gt _ => "Gt"
  | ge _ => "Gte"
  | range .. => "Range"

def operands : Comparator → List Binary64
  | any => []
  | eq x | ne x | lt x | le x | gt x | ge x => [x]
  | range low high => [low, high]

/-- The comparator of a name and operands. -/
def ofName? : String → List Binary64 → Option Comparator
  | "Any", [] => some any
  | "Eq", [x] => some (eq x)
  | "Neq", [x] => some (ne x)
  | "Lt", [x] => some (lt x)
  | "Lte", [x] => some (le x)
  | "Gt", [x] => some (gt x)
  | "Gte", [x] => some (ge x)
  | "Range", [low, high] => some (range low high)
  | _, _ => none

theorem ofName?_name (c : Comparator) : ofName? c.name c.operands = some c := by
  cases c <;> rfl

/-- What is wrong with the operands: they must be numbers, and ranges must not
be empty. -/
def fault? : Comparator → Option QueryFault
  | any => none
  | range low high =>
    if low.isNaN || high.isNaN then some .rangeBoundNaN
    else if high.lt low then some (.emptyRange low high)
    else none
  | eq x | ne x | lt x | le x | gt x | ge x => if x.isNaN then some .operandNaN else none

end Comparator

/-- Selects arcs around a vertex. -/
structure Probe where
  /-- Without a label, every relationship. -/
  relationship : Option String
  direction : Direction
  /-- Without a kind, every kind. -/
  kind : Option ArcKind
  value : Comparator
  deriving DecidableEq, Repr

namespace Probe

/-- All arcs, on both sides. -/
def any : Probe := { relationship := none, direction := .any, kind := none, value := .any }

/-- The label that stands for every relationship. -/
def wildcard : String := "*"

def withRelationship (p : Probe) (label : String) : Probe :=
  { p with relationship := if label = wildcard then none else some label }

/-- The arcs of a relationship, or all for the wildcard, on the given sides. -/
def along (label : String) (direction : Direction) : Probe :=
  ({ any with direction } : Probe).withRelationship label

/-- The same arcs seen from their other ends. -/
def reverse (p : Probe) : Probe := { p with direction := p.direction.reverse }

end Probe

/-- Lets a connect proceed only if an arc between its two vertices matches, or,
negated, if none does. -/
structure ArcCondition where
  probe : Probe
  negate : Bool
  deriving DecidableEq, Repr

/-- The arc a connect is to write. -/
structure ArcRequest where
  relationship : String
  kind : ArcKind := .static
  /-- Without a number the kind's default is written. -/
  value : Option Binary64 := none
  forwardOnly : Bool := false
  deriving DecidableEq, Repr

/-- An arc as it is reported, seen from `anchor`. -/
structure ArcRecord where
  anchor : String
  relationship : String
  direction : Direction
  kind : ArcKind
  value : ArcValue
  forwardOnly : Bool
  neighbor : String
  deriving DecidableEq, Repr

namespace ArcRecord

/-- Where the arc starts. -/
def initial (a : ArcRecord) : String :=
  if a.direction = .inward then a.neighbor else a.anchor

/-- Where the arc ends. -/
def terminal (a : ArcRecord) : String :=
  if a.direction = .inward then a.anchor else a.neighbor

end ArcRecord

end Arcbase
