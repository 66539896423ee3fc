import Arcbase.Store.Basic
set_option autoImplicit false

/-!
# Connecting vertices

A connect writes one arc from its initial to each terminal it admits.  All
endpoints are held writable, and every terminal is checked before any arc is
written.  A vertex that is the terminal of forward-only arcs takes no regular
ones, and the other way round.

An occupied slot is overwritten; counters and accumulators add to it instead.  An
arc that is already there keeps its forward-only flag.
-/

namespace Arcbase

/-- Where a connect goes. -/
inductive Terminals where
  /-- one vertex, created virtual if it is missing -/
  | one (id : String)
  /-- existing vertices, all different -/
  | list (ids : List String)
  deriving DecidableEq, Repr

/-- A connect with all its options. -/
structure ConnectRequest where
  initial : String
  arc : ArcRequest
  terminals : Terminals
  condition : Option ArcCondition := none
  /-- Seconds from now until the relationship to the terminal expires. -/
  lifespan : Option UInt32 := none
  deriving DecidableEq, Repr

/-- What happens to the value in a slot. -/
inductive ArcUpdate where
  /-- overwrites; without a value the old one stays, or the kind's default is
  written -/
  | set (value : Option ArcValue)
  /-- adds, within the domain -/
  | add (delta : Binary64)
  deriving DecidableEq, Repr

namespace ArcUpdate

/-- What a request does to its slots. -/
def ofRequest (r : ArcRequest) : Except Error ArcUpdate := do
  let coerced ← r.value.mapM fun v =>
    (r.kind.coerce v).mapError fun fault => .arc (.invalidValue r.kind fault)
  if r.kind.isAccumulating then
    return .add (coerced.elim (.ofInt 1) ArcValue.toNumber)
  else if r.kind = .timeExpires ∧ coerced.isNone then
    throw (.arc (.invalidValue r.kind .expirationRequired))
  else return .set coerced

/-- The new value of a slot of the kind that holds `old`, or is vacant. -/
def apply (u : ArcUpdate) (kind : ArcKind) (old : Option ArcValue) (now : UInt32) : ArcValue :=
  match u, old with
  | set (some v), _ => v
  | set none, none => kind.defaultValue now
  | set none, some v => if kind = .timeModified then .unsigned now else v
  | add delta, none => kind.saturate delta
  | add delta, some v => kind.saturate (v.toNumber.add delta)

end ArcUpdate

/-- A condition whose probe has been looked up. -/
structure Gate where
  filter : ArcFilter
  direction : Direction
  negate : Bool
  deriving DecidableEq, Repr

namespace Store

/-- The gate of a condition in this store. -/
def gateOf (s : Store) (condition : ArcCondition) : Except Error Gate := do
  let filter ← s.filterOf condition.probe
  return { filter, direction := condition.probe.direction, negate := condition.negate }

/-- Whether an outbound arc of one cell toward another passes a filter. -/
def hasOutArc (s : Store) (i t : CellId) (filter : ArcFilter) : Bool :=
  ((s.data i).out.arcsTo (s.cell t).key).any filter.test

/-- Whether a gate lets a connect from `i` to `t` pass. -/
def gatePasses (s : Store) (gate : Gate) (i t : CellId) : Bool :=
  let found := (gate.direction.includesOut && s.hasOutArc i t gate.filter) ||
    (gate.direction.includesIn && s.hasOutArc t i gate.filter)
  found != gate.negate

/-- What stands against an arc of the request from `i` to `t`. -/
def arcFault? (s : Store) (r : ArcRequest) (relationship : LabelCode) (i t : CellId) :
    Option ArcError :=
  let terminal := s.data t
  if r.forwardOnly && !terminal.inbound.isEmpty then some (.forwardOnlyNotAllowed (s.cell t).id)
  else if !r.forwardOnly && 0 < terminal.forwardOnlyIn then some (.regularNotAllowed (s.cell t).id)
  else if r.kind = .timeCreated ∧
      ((s.data i).out.get? (s.cell t).key relationship .timeCreated).isSome then
    some .creationTimeReassigned
  else none

/-- Writes an arc from `i` to `t` on both of its sides; the two may be the same
cell.  Says whether the slot was vacant, and gives the value it now holds. -/
def putArc (s : Store) (i t : CellId) (relationship : LabelCode) (kind : ArcKind)
    (forwardOnly : Bool) (u : ArcUpdate) (now : UInt32) : (Bool × ArcValue) × Store :=
  let initialKey := (s.cell i).key
  let terminalKey := (s.cell t).key
  let old := (s.data i).out.get? terminalKey relationship kind
  let value := u.apply kind (old.map (·.value)) now
  let forwardOnly := old.elim forwardOnly (·.forwardOnly)
  let arc : StoredArc := { relationship, kind, value, forwardOnly }
  let s := s.modifyData i fun d => { d with out := (d.out.insert terminalKey arc).2 }
  let s :=
    if !forwardOnly then
      s.modifyData t fun d => { d with inbound := (d.inbound.insert initialKey arc).2 }
    else if old.isNone then
      s.modifyData t fun d => { d with forwardOnlyIn := d.forwardOnlyIn + 1 }
    else s
  ((old.isNone, value), { s with size := if old.isNone then s.size + 1 else s.size })

/-- The end of a lifespan, at most the greatest time there is. -/
def lifespanEnd (now lifespan : UInt32) : UInt32 :=
  if UInt32.size ≤ now.toNat + lifespan.toNat then UInt32.ofNat (UInt32.size - 1)
  else now + lifespan

/-- Writes the arc of a request to one terminal, and its lifespan. -/
def connectTo (s : Store) (now : UInt32) (r : ConnectRequest) (relationship : LabelCode)
    (u : ArcUpdate) (i t : CellId) : (Bool × ArcValue) × Store :=
  let ((isNew, value), s) := s.putArc i t relationship r.arc.kind r.arc.forwardOnly u now
  let (ending, s) := match r.lifespan with
    | some lifespan =>
      let time := lifespanEnd now lifespan
      (some time,
        (s.putArc i t relationship .timeExpires r.arc.forwardOnly
          (.set (some (.unsigned time))) now).2)
    | none => (if r.arc.kind = ArcKind.timeExpires then value.unsigned? else none, s)
  let s := (s.modifyData i (·.touch now)).modifyData t (·.touch now)
  let s := match ending with
    | some time =>
      s.scheduleAt (.arc (s.cell i).id r.arc.relationship (s.cell t).id) time
    | none => s
  ((isNew, value), s)

end Store

namespace Action

/-- The terminals that a request's condition lets pass, each checked. -/
def admitted (s : Store) (r : ArcRequest) (relationship : LabelCode) (gate : Option Gate)
    (i : CellId) (terminals : List CellId) : Except ArcError (List CellId) :=
  let passing := terminals.filter fun t => gate.all fun g => s.gatePasses g i t
  match passing.findSome? (s.arcFault? r relationship i) with
  | some fault => .error fault
  | none => .ok passing

/-- Writes the arcs of a request, all endpoints being held writable: the number
of new arcs, and the last value written. -/
def connectHeld (who : Caller) (r : ConnectRequest) (relationship : LabelCode) (u : ArcUpdate)
    (gate : Option Gate) (i : CellId) (terminals : List CellId) :
    Action (Nat × Option ArcValue) := do
  let s ← read id
  let passing ← ofExcept ((admitted s r.arc relationship gate i terminals).mapError .arc)
  update (·.modifyData i (·.promote who.now))
  passing.foldlM (fun (added, _) t => do
    let (isNew, value) ← ofFun fun s =>
      let (r, s) := s.connectTo who.now r relationship u i t
      (.ok r, s)
    return (if isNew then added + 1 else added, some value)) (0, none)

/-- What is wrong with a list of terminals. -/
def terminalFault? (s : Store) (initial : String) :
    List String → List String → Option VertexFault
  | _, [] => none
  | seen, t :: rest =>
    if t = initial then some (.initialInTerminals t)
    else if seen.contains t then some (.duplicateTerminal t)
    else if !s.contains t then some (.missingTerminal t)
    else terminalFault? s initial (t :: seen) rest

/-- Takes cells out again that were added for a request which then could not
hold them. -/
def collectUnheld (who : Caller) (cells : List CellId) : Action Unit :=
  cells.forM fun c => do
    match ← attempt (acquire who c .writable) with
    | .ok g => update (·.drop g)
    | .error _ => pure ()

/-- The cells of the terminals, and those of them that were added. -/
def terminalCells (who : Caller) (initial : String) (i : CellId) :
    Terminals → Action (List CellId × List CellId)
  | .one t => do
    if t = initial then return ([i], [])
    let (c, isNew) ← findOrAdd who t .virtual
    return ([c], if isNew then [c] else [])
  | .list ids => do
    let cells ← ids.mapM fun t => do
      match ← read (·.lookup t) with
      | some c => return c
      | none => fail (.vertex (.missingTerminal t))
    return (cells, [])

/-- Connects under the code of the relationship: the number of new arcs, and the
last value written. -/
def connectAs (who : Caller) (r : ConnectRequest) (relationship : LabelCode) (u : ArcUpdate)
    (gate : Option Gate) : Action (Nat × Option ArcValue) := do
  let (i, _) ← findOrAdd who r.initial .real
  let (terminals, added) ← terminalCells who r.initial i r.terminals
  match ← attempt (acquireMany who (i :: terminals.filter (· ≠ i)) .writable) with
  | .error e =>
    collectUnheld who added
    fail e
  | .ok guards =>
    ensuring (connectHeld who r relationship u gate i terminals) fun s => s.dropAll guards

/-- The identifiers of a request's terminals; a list of them is checked. -/
def terminalIds (r : ConnectRequest) : Action (List String) :=
  match r.terminals with
  | .one t => return [t]
  | .list ids => do
    refuse (← read fun s => terminalFault? s r.initial [] ids)
    return ids

/-- Connects with a given update: the number of new arcs, and the last value
written. -/
def connectWith (who : Caller) (r : ConnectRequest) (u : ArcUpdate) :
    Action (Nat × Option ArcValue) := do
  checkWritable
  refuse (← read (·.identifierFault? r.initial))
  if r.arc.relationship = "" ∨ r.arc.relationship = Probe.wildcard then
    fail (.query (.invalidRelationship r.arc.relationship))
  else
    let gate ← ofExcept (← read fun s => r.condition.mapM s.gateOf)
    let ids ← terminalIds r
    if ids.isEmpty then return (0, none)
    else
      refuse (← read fun s => ids.findSome? s.identifierFault?)
      connectAs who r (← encodeRelationship r.arc.relationship) u gate

/-- Connects; the count is that of the new arcs, lifespans aside. -/
def connect (who : Caller) (r : ConnectRequest) : Action Nat := do
  let u ← ofExcept (ArcUpdate.ofRequest r.arc)
  return (← connectWith who r u).1

/-- Adds to the number of an arc of any kind, creating the arc if it is missing,
with the value it then holds. -/
def addTo (who : Caller) (initial relationship terminal : String) (kind : ArcKind)
    (delta : Binary64) : Action ArcValue := do
  if !delta.isFinite then fail (.arc (.invalidValue kind (.deltaNotFinite delta)))
  let r : ConnectRequest := { initial, arc := { relationship, kind }, terminals := .one terminal }
  match (← connectWith who r (.add delta)).2 with
  | some value => return value
  | none => fail (.vertex (.noArcWritten initial terminal))

/-- Adds to a counter, one by default. -/
def count (who : Caller) (initial relationship terminal : String) (delta : Option Int) :
    Action UInt32 := do
  let value ← addTo who initial relationship terminal .counter (.ofInt (delta.getD 1))
  return value.unsigned?.getD 0

/-- Adds to an accumulator, one by default. -/
def accumulate (who : Caller) (initial relationship terminal : String)
    (delta : Option Binary64) : Action Binary32 := do
  let value ← addTo who initial relationship terminal .accumulator (delta.getD (.ofInt 1))
  return value.toNumber.convert

end Action

end Arcbase
