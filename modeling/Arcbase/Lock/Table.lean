import Arcbase.Lock.Record
set_option autoImplicit false

/-!
# Lock tables

A lock table holds the lock records of one graph, the limit on nesting, the
number of vertices that are written, and the flag that refuses new writers.

A request that another thread stands in the way of is refused at once: while one
request is decided no other runs, so waiting would not help it.  Several items
are taken in ascending order of their ordinals; if one is refused, those taken
before it are given back.
-/

namespace Arcbase

/-- Something that can be held: its record's place, its rank in the order of
acquisition, and its name in errors. -/
structure LockItem where
  slot : Nat
  ordinal : Nat
  label : String
  deriving DecidableEq, Repr

/-- Access to an item that a thread has been given. -/
structure Guard where
  thread : Thread
  item : LockItem
  hold : Hold
  deriving DecidableEq, Repr

namespace Guard

def mode (g : Guard) : LockMode := g.hold.mode

def isWritable (g : Guard) : Bool := g.hold == .writer

end Guard

/-- The locks of one graph. -/
structure LockTable where
  /-- Levels a thread may hold of one item. -/
  limit : Nat
  /-- Wait in milliseconds where a request gives none. -/
  defaultWait : Nat
  /-- Whether new writers are refused. -/
  readonly : Bool := false
  /-- Items that are written. -/
  writers : Nat := 0
  records : AssocMap Nat LockRecord := .empty
  deriving Repr, DecidableEq

namespace LockTable

/-- A table without holders.  One level at least is always allowed. -/
def new (limit defaultWait : Nat) : LockTable := { limit := max limit 1, defaultWait }

/-- The longest wait that is ever used: a year, in milliseconds. -/
def longestWait : Nat := 365 * 24 * 3600 * 1000

/-- The wait of a request. -/
def resolveWait (t : LockTable) (timeout : Option Nat) : Nat :=
  min (timeout.getD t.defaultWait) longestWait

/-- The record of an item. -/
def record (t : LockTable) (slot : Nat) : LockRecord := (t.records.get? slot).getD .free

def setRecord (t : LockTable) (slot : Nat) (r : LockRecord) : LockTable :=
  { t with records := t.records.insert slot r }

theorem record_setRecord (t : LockTable) (slot slot' : Nat) (r : LockRecord) :
    (t.setRecord slot r).record slot' = if slot = slot' then r else t.record slot' := by
  simp only [record, setRecord, AssocMap.get?_insert]
  split <;> rfl

/-! ## The read-only flag -/

/-- Refuses when the flag is up. -/
def checkWritable (t : LockTable) : Except AccessError Unit :=
  if t.readonly then .error .readonlyGraph else .ok ()

/-- One more written item, unless the flag is up. -/
def enterWriter (t : LockTable) : Except AccessError LockTable :=
  if t.readonly then .error .readonlyGraph else .ok { t with writers := t.writers + 1 }

def leaveWriter (t : LockTable) : LockTable := { t with writers := t.writers - 1 }

/-- Raises the flag, unless some item is written. -/
def setReadonly (t : LockTable) (graph : String) : Except AccessError Unit × LockTable :=
  if 0 < t.writers then (.error (.timeout graph .writable), { t with readonly := false })
  else (.ok (), { t with readonly := true })

def clearReadonly (t : LockTable) : LockTable := { t with readonly := false }

/-! ## Taking and giving back -/

/-- Writable access to an item. -/
def acquireWritable (t : LockTable) (me : Thread) (item : LockItem) :
    Except AccessError (Hold × LockTable) := do
  let r := t.record item.slot
  if r.writer = some me then
    let r ← r.reenter t.limit item.label
    return (.writer, t.setRecord item.slot r)
  else if r.readers.contains me then
    throw (.locked item.label)
  else
    let t ← t.enterWriter
    if r.mode = .none then
      return (.writer, t.setRecord item.slot (r.writtenBy me))
    else
      throw (.timeout item.label .writable)

/-- Readonly access to an item. -/
def acquireReadonly (t : LockTable) (me : Thread) (item : LockItem) :
    Except AccessError (Hold × LockTable) := do
  let (hold, r) ← (t.record item.slot).read me t.limit item.label
  return (hold, t.setRecord item.slot r)

/-- Access to an item in the given mode. -/
def acquire (t : LockTable) (me : Thread) (item : LockItem) (mode : LockMode) :
    Except AccessError (Guard × LockTable) := do
  let (hold, t) ← match mode with
    | .none => throw .notHeld
    | .readonly => t.acquireReadonly me item
    | .writable => t.acquireWritable me item
  return (⟨me, item, hold⟩, t)

/-- Gives back what a guard holds. -/
def release (t : LockTable) (g : Guard) : LockTable :=
  let r := t.record g.item.slot
  match g.hold with
  | .reader => t.setRecord g.item.slot (r.closeReader g.thread)
  | .writer =>
    let t' := t.setRecord g.item.slot r.closeWriter
    if r.recursion ≤ 1 then t'.leaveWriter else t'

def releaseAll (t : LockTable) (guards : List Guard) : LockTable := guards.foldl release t

/-- Takes the items in the listed order; `taken` are the guards so far. -/
def acquireInOrder (me : Thread) (mode : LockMode) :
    List LockItem → List Guard → LockTable → Except AccessError (List Guard) × LockTable
  | [], taken, t => (.ok taken, t)
  | item :: rest, taken, t =>
    match t.acquire me item mode with
    | .ok (g, t) => acquireInOrder me mode rest (taken ++ [g]) t
    | .error e => (.error e, t.releaseAll taken)

/-- The first item whose successor has the same ordinal. -/
def duplicate? : List LockItem → Option LockItem
  | a :: b :: rest => if a.ordinal = b.ordinal then some a else duplicate? (b :: rest)
  | _ => none

/-- Access to all items or to none, in ascending order of their ordinals. -/
def acquireMany (t : LockTable) (me : Thread) (items : List LockItem) (mode : LockMode) :
    Except Error (List Guard) × LockTable :=
  let sorted := items.mergeSort fun a b => a.ordinal ≤ b.ordinal
  match duplicate? sorted with
  | some item => (.error (.vertex (.duplicateInRequest item.label)), t)
  | none =>
    let (result, t) := acquireInOrder me mode sorted [] t
    (result.mapError .access, t)

/-! ## Guards -/

/-- Levels the guard's thread has on its item. -/
def levels (t : LockTable) (g : Guard) : Nat := (t.record g.item.slot).levels g.thread g.hold

/-- Whether giving the guard back frees its thread of the item. -/
def isOutermost (t : LockTable) (g : Guard) : Bool := t.levels g == 1

/-- Turns readonly into writable access, for the sole reader at one level. -/
def escalate (t : LockTable) (g : Guard) : Except AccessError (Guard × LockTable) := do
  match g.hold with
  | .writer => return (g, t)
  | .reader =>
    let r := t.record g.item.slot
    if r.isSoleReader g.thread then
      let t ← t.enterWriter
      let r := { r with readers := AssocMap.empty }
      return ({ g with hold := .writer }, t.setRecord g.item.slot (r.writtenBy g.thread))
    else throw (.escalationDenied g.item.label)

/-- Turns writable into readonly access, or closes a level if the thread has
more than one. -/
def relax (t : LockTable) (g : Guard) : Option Guard × LockTable :=
  match g.hold with
  | .reader => (some g, t)
  | .writer =>
    let r := t.record g.item.slot
    if 1 < r.recursion then (none, t.release g)
    else
      (some { g with hold := .reader },
        (t.setRecord g.item.slot (r.downgrade g.thread)).leaveWriter)

end LockTable

end Arcbase
