import Arcbase.Arc.Probe
import Arcbase.AssocMap
import Arcbase.Vertex.Info
set_option autoImplicit false

/-!
# Expressions

Filters and ranks are expressions: functions of a candidate that may also read
and write the registers of their query.  Besides a number or an error an
evaluation yields the registers as it leaves them and the time it took, for a
query may bound its running time.

The arithmetic at the end builds expressions from smaller ones, which are
evaluated from left to right.
-/

namespace Arcbase

/-- The arc a query looks at, with the vertex at its far end; `depth` is one for
the arcs of the query's anchor. -/
structure Candidate where
  arc : ArcRecord
  vertex : VertexInfo
  depth : Nat
  deriving Repr

/-- Named numbers that the expressions of one query share. -/
abbrev Registers := AssocMap String Binary64

namespace Registers

/-- Adds to a register, which starts at zero, with its new value. -/
def increase (r : Registers) (name : String) (by' : Binary64) : Binary64 × Registers :=
  let value := ((r.get? name).getD .zero).add by'
  (value, r.insert name value)

end Registers

/-- What comes of an evaluation. -/
structure Outcome (α : Type) where
  result : Except Error α
  registers : Registers
  /-- Milliseconds gone by. -/
  elapsed : Nat := 0

namespace Outcome

/-- Goes on with the value, under the registers it left. -/
def andThen {α β : Type} (o : Outcome α) (f : α → Registers → Outcome β) : Outcome β :=
  match o.result with
  | .error e => { result := .error e, registers := o.registers, elapsed := o.elapsed }
  | .ok a =>
    let next := f a o.registers
    { next with elapsed := o.elapsed + next.elapsed }

def map {α β : Type} (f : α → β) (o : Outcome α) : Outcome β :=
  o.andThen fun a registers => { result := .ok (f a), registers }

end Outcome

/-- A number computed from a candidate. -/
structure Expression where
  /-- Name in errors. -/
  describe : String := "<expression>"
  evaluate : Candidate → Registers → Outcome Binary64

/-- Whether a number counts as true: neither zero nor a not-a-number. -/
def truthy (x : Binary64) : Bool := !x.eq .zero && !x.isNaN

namespace Expression

/-- An expression that depends on the candidate alone. -/
def ofCandidate (describe : String) (f : Candidate → Except Error Binary64) : Expression where
  describe
  evaluate c registers := { result := f c, registers }

/-! ## Properties of the candidate -/

/-- The number of the arc. -/
def arcValue : Expression := ofCandidate "arc.value" fun c => .ok c.arc.value.toNumber

/-- The number in a property of the vertex; it has to be there. -/
def property (name : String) : Expression :=
  ofCandidate s!"vertex['{name}']" fun c =>
    match c.vertex.properties.get? name with
    | none => .error (.query (.propertyMissing c.vertex.id name))
    | some v =>
      match v.number? with
      | some x => .ok x
      | none => .error (.query (.propertyNotNumeric name c.vertex.id v.typeName))

/-- The degree of the vertex on the given sides. -/
def degree (direction : Direction) : Expression :=
  ofCandidate s!"vertex.degree({direction.name})" fun c =>
    .ok <| .ofNat <| match direction with
      | .out => c.vertex.outdegree
      | .inward => c.vertex.indegree
      | .any => c.vertex.degree

/-! ## Arithmetic -/

def constant (describe : String) (x : Binary64) : Expression := ofCandidate describe fun _ => .ok x

def failing (describe : String) (e : Error) : Expression := ofCandidate describe fun _ => .error e

/-- The depth of the candidate. -/
def depth (describe : String) : Expression := ofCandidate describe fun c => .ok (.ofNat c.depth)

/-- The number in a property, or another one if there is none. -/
def propertyOr (describe name : String) (otherwise : Binary64) : Expression :=
  ofCandidate describe fun c =>
    .ok (((c.vertex.properties.get? name).bind PropertyValue.number?).getD otherwise)

/-- One for true, zero for false. -/
def ofBool (b : Bool) : Binary64 := if b then .ofInt 1 else .zero

/-- Whether the vertex has an identifier. -/
def isVertex (describe id : String) : Expression :=
  ofCandidate describe fun c => .ok (ofBool (c.vertex.id == id))

/-- Adds to a register. -/
def increase (describe register : String) (by' : Binary64) : Expression where
  describe
  evaluate _ registers :=
    let (value, registers) := Registers.increase registers register by'
    { result := .ok value, registers }

/-- The value of a register, or another number if it was never written. -/
def register (describe name : String) (otherwise : Binary64) : Expression where
  describe
  evaluate _ registers := { result := .ok ((registers.get? name).getD otherwise), registers }

/-- Writes the value of an expression into a register. -/
def assign (describe register : String) (a : Expression) : Expression where
  describe
  evaluate c registers :=
    (a.evaluate c registers).andThen fun x registers =>
      { result := .ok x, registers := registers.insert register x }

def unary (describe : String) (f : Binary64 → Binary64) (a : Expression) : Expression where
  describe
  evaluate c registers := (a.evaluate c registers).map f

def binary (describe : String) (f : Binary64 → Binary64 → Binary64) (a b : Expression) :
    Expression where
  describe
  evaluate c registers :=
    (a.evaluate c registers).andThen fun x registers => (b.evaluate c registers).map (f x)

/-- Comparisons give one for true and zero for false. -/
def comparison (test : Binary64 → Binary64 → Bool) (x y : Binary64) : Binary64 := ofBool (test x y)

/-- Functions of two numbers, by name. -/
def operators : List (String × (Binary64 → Binary64 → Binary64)) :=
  [("add", Binary.add), ("sub", Binary.sub), ("mul", Binary.mul), ("div", Binary.div),
    ("lt", comparison Binary.lt), ("le", comparison Binary.le), ("eq", comparison Binary.eq)]

/-- Lets milliseconds go by. -/
def sleep (describe : String) (milliseconds : Nat) : Expression where
  describe
  evaluate _ registers :=
    { result := .ok (.ofInt 1), registers, elapsed := milliseconds }

end Expression

end Arcbase
