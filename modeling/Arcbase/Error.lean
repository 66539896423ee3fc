import Arcbase.Arc.Kind
import Arcbase.Lock.Mode
set_option autoImplicit false

/-!
# Errors

Every error is a cause; its wording is one function, `Error.message`.

* `AccessError` is contention or graph-wide refusal.  Such an error may be
  retried unchanged.
* `ArcError` is a violated rule about arcs, or a removal that stopped part way.
* The faults of vertices, keys, queries and serialized data are lists of what
  can be wrong with a request.
-/

namespace Arcbase

/-- Contention, nesting limits and graph-wide refusal. -/
inductive AccessError where
  | timeout (vertex : String) (mode : LockMode)
  | locked (vertex : String)
  | recursionLimit (vertex : String)
  | escalationDenied (vertex : String)
  | notHeld
  | readonlyGraph
  | executionTimeout (elapsed : Nat)
  deriving DecidableEq, Repr

def AccessError.message : AccessError → String
  | timeout vertex mode => s!"Timeout acquiring {mode.name} access to vertex '{vertex}'"
  | locked vertex => s!"Object is locked: vertex '{vertex}' is held readonly by the current thread"
  | recursionLimit vertex => s!"Recursion limit reached for vertex '{vertex}'"
  | escalationDenied vertex => s!"Cannot escalate vertex '{vertex}': other readers present"
  | notHeld => "Vertex not held in the required mode"
  | readonlyGraph => "Graph is readonly"
  | executionTimeout elapsed => s!"Execution time limit exceeded after {elapsed} ms"

/-- Violated rules about arcs, and removals that stopped part way. -/
inductive ArcError where
  | regularNotAllowed (terminal : String)
  | forwardOnlyNotAllowed (terminal : String)
  | creationTimeReassigned
  | invalidValue (kind : ArcKind) (fault : ValueFault)
  /-- `removed` arcs are gone, `remaining` matched but are still in place. -/
  | incomplete (removed remaining : Nat) (cause : AccessError)
  deriving DecidableEq, Repr

def ArcError.message : ArcError → String
  | regularNotAllowed t => s!"Regular arc not allowed: '{t}' has forward-only inarcs"
  | forwardOnlyNotAllowed t => s!"Forward-only arc not allowed: '{t}' has regular inarcs"
  | creationTimeReassigned => "Creation time cannot be reassigned"
  | invalidValue kind fault => s!"Invalid {kind.mnemonic} value: {fault.message}"
  | incomplete removed remaining cause =>
    s!"Removal incomplete ({removed} removed, {remaining} remaining), try again: {cause.message}"

/-- What can be wrong with the vertices of a request. -/
inductive VertexFault where
  | emptyIdentifier
  | identifierTooLong (limit : Nat)
  | collision (id existing : String)
  | duplicateInRequest (id : String)
  | typeCapacity (label : String)
  | typeClash (id present wanted : String)
  | initialInTerminals (id : String)
  | duplicateTerminal (id : String)
  | missingTerminal (id : String)
  | vectorNotFinite (id : String)
  | noArcWritten (initial terminal : String)
  | duplicateInSnapshot (id existing : String)
  | danglingEndpoint (id : String)
  | graphNotEmpty (graph : String)
  | other (text : String)
  deriving DecidableEq, Repr

def VertexFault.message : VertexFault → String
  | emptyIdentifier => "empty vertex identifier"
  | identifierTooLong limit => s!"vertex identifier exceeds {limit} bytes"
  | collision id existing => s!"identifier '{id}' collides with existing vertex '{existing}'"
  | duplicateInRequest id => s!"duplicate vertex '{id}' in request"
  | typeCapacity label => s!"vertex type capacity exhausted, cannot enumerate '{label}'"
  | typeClash id present wanted => s!"vertex '{id}' has type '{present}', not '{wanted}'"
  | initialInTerminals id => s!"terminal list contains the initial '{id}'"
  | duplicateTerminal id => s!"duplicate terminal '{id}'"
  | missingTerminal id => s!"terminal '{id}' does not exist"
  | vectorNotFinite id => s!"vector for '{id}' has non-finite elements"
  | noArcWritten initial terminal => s!"no arc written from '{initial}' to '{terminal}'"
  | duplicateInSnapshot id existing =>
    s!"duplicate vertex '{id}' in snapshot (key of '{existing}')"
  | danglingEndpoint id => s!"arc endpoint '{id}' missing from snapshot"
  | graphNotEmpty graph => s!"graph '{graph}' is not empty"
  | other text => text

/-- What a request can fail to find. -/
inductive KeyFault where
  | missing (id : String)
  | noArc (relationship initial terminal : String)
  | removedOnRelax (id : String)
  | other (text : String)
  deriving DecidableEq, Repr

def KeyFault.message : KeyFault → String
  | missing id => s!"vertex '{id}' does not exist"
  | noArc relationship initial terminal =>
    s!"no '{relationship}' arc from '{initial}' to '{terminal}'"
  | removedOnRelax id => s!"vertex '{id}' was removed on relax"
  | other text => text

/-- What can be wrong with a probe, a query or its expressions. -/
inductive QueryFault where
  | rangeBoundNaN
  | emptyRange (low high : Binary64)
  | operandNaN
  | emptyRelationship
  | invalidRelationship (label : String)
  | relationshipCapacity (label : String)
  | anchor (fault : VertexFault)
  | tooDeep (levels limit : Nat)
  | rankRequired
  | timeoutRequired
  | emptyVertexType
  | propertyNotNumeric (property id type : String)
  | propertyMissing (id property : String)
  | expressionFailed (expression anchor neighbor cause : String)
  | other (text : String)
  deriving DecidableEq, Repr

def QueryFault.message : QueryFault → String
  | rangeBoundNaN => "range bound is NaN"
  | emptyRange low high =>
    "empty range " ++ Decimal.Layout.message.format low ++ "..=" ++
      Decimal.Layout.message.format high
  | operandNaN => "comparison operand is NaN"
  | emptyRelationship => "empty relationship in arc probe"
  | invalidRelationship label => s!"invalid relationship '{label}'"
  | relationshipCapacity label => s!"relationship capacity exhausted, cannot enumerate '{label}'"
  | anchor fault => s!"Vertex error: {fault.message}"
  | tooDeep levels limit => s!"query nests {levels} levels, limit is {limit}"
  | rankRequired => "sort by rank requires a rank expression"
  | timeoutRequired => "limexec requires a timeout"
  | emptyVertexType => "empty vertex type in condition"
  | propertyNotNumeric property id type => s!"property '{property}' of '{id}' is {type}, not numeric"
  | propertyMissing id property => s!"vertex '{id}' has no property '{property}'"
  | expressionFailed expression source neighbor cause =>
    s!"{expression} failed on {source} -> {neighbor}: {cause}"
  | other text => text

/-- What can be wrong with serialized data. -/
inductive DataFault where
  /-- the text is not JSON, or not of the expected shape -/
  | malformed
  | wrongValue (initial terminal : String) (value : ArcValue) (kind : ArcKind)
  | mixedInarcs (terminal : String)
  deriving DecidableEq, Repr

def DataFault.message : DataFault → String
  | malformed => "malformed text"
  | wrongValue initial terminal value kind =>
    s!"arc '{initial}' -> '{terminal}' holds {value.quoted}, not a {kind.mnemonic} value"
  | mixedInarcs terminal => s!"'{terminal}' mixes forward-only and regular inarcs"

/-- Any error of the library. -/
inductive Error where
  | access (cause : AccessError)
  | arc (cause : ArcError)
  | vertex (fault : VertexFault)
  | key (fault : KeyFault)
  | query (fault : QueryFault)
  | data (fault : DataFault)
  deriving DecidableEq, Repr

namespace Error

/-- The wording of an error. -/
def message : Error → String
  | access cause => cause.message
  | arc cause => cause.message
  | vertex fault => s!"Vertex error: {fault.message}"
  | key fault => s!"Key error: {fault.message}"
  | query fault => s!"Query error: {fault.message}"
  | data fault => s!"Serialization error: {fault.message}"

/-- A short name for the kind of an error, for programs to tell errors apart. -/
def code : Error → String
  | access (.timeout ..) => "Access.Timeout"
  | access (.locked ..) => "Access.Locked"
  | access (.recursionLimit ..) => "Access.RecursionLimit"
  | access (.escalationDenied ..) => "Access.EscalationDenied"
  | access .notHeld => "Access.NotHeld"
  | access .readonlyGraph => "Access.ReadonlyGraph"
  | access (.executionTimeout ..) => "Access.ExecutionTimeout"
  | arc (.regularNotAllowed ..) => "Arc.RegularNotAllowed"
  | arc (.forwardOnlyNotAllowed ..) => "Arc.ForwardOnlyNotAllowed"
  | arc .creationTimeReassigned => "Arc.CreationTimeReassigned"
  | arc (.invalidValue ..) => "Arc.InvalidValue"
  | arc (.incomplete ..) => "Arc.Incomplete"
  | vertex _ => "Vertex"
  | key _ => "Key"
  | query _ => "Query"
  | data _ => "Serialization"

/-- Access errors may be retried unchanged. -/
def isRetrySafe : Error → Bool
  | access _ => true
  | _ => false

/-- Arcs already removed by a call that stopped part way. -/
def partialCount : Error → Option Nat
  | arc (.incomplete removed _ _) => some removed
  | _ => none

theorem isRetrySafe_iff (e : Error) : e.isRetrySafe = true ↔ ∃ cause, e = .access cause := by
  cases e <;> simp [isRetrySafe]

theorem partialCount_eq_none_of_isRetrySafe {e : Error} (h : e.isRetrySafe = true) :
    e.partialCount = none := by
  cases e <;> simp_all [isRetrySafe, partialCount]

end Error

end Arcbase
