import Arcbase.Config
import Arcbase.Lock.Table
import Arcbase.Schedule
import Arcbase.Vertex.Data
set_option autoImplicit false

/-!
# The store

A store is the state of one graph.  Every vertex lives in a cell; `table` lists
the cells that are registered, under their keys.  A cell that has been taken out
of the table keeps its place, so that a handle which still holds it goes on
seeing it, and a vertex created later under the same identifier gets a cell of
its own.

An `Action` reads and changes a store and may fail.  What it had changed before
it failed stays changed.
-/

namespace Arcbase

/-- The place of a cell. -/
abbrev CellId := Nat

/-- A vertex with its identity. -/
structure Cell where
  id : String
  key : VertexKey
  data : VertexData
  deriving Repr, Inhabited

/-- Who runs an operation, and at what time. -/
structure Caller where
  thread : Thread
  now : UInt32
  deriving DecidableEq, Repr

/-- The state of one graph. -/
structure Store where
  config : Config
  labels : Labels
  cells : Array Cell := #[]
  /-- The registered cells. -/
  table : AssocMap VertexKey CellId := .empty
  locks : LockTable
  /-- Number of arcs. -/
  size : Nat := 0
  schedule : Schedule := .empty

/-- An operation on a store. -/
abbrev Action (α : Type) := ExceptT Error (StateM Store) α

namespace Store

/-- An empty store with the given label tables. -/
def new (config : Config) (labels : Labels) : Store :=
  { config, labels, locks := .new config.recursionLimit config.defaultTimeout }

/-- Number of vertices. -/
def order (s : Store) : Nat := s.table.size

/-! ## Cells -/

def cell (s : Store) (c : CellId) : Cell := s.cells[c]?.getD default

def data (s : Store) (c : CellId) : VertexData := (s.cell c).data

/-- Changes the data of a cell. -/
def modifyData (s : Store) (c : CellId) (f : VertexData → VertexData) : Store :=
  { s with cells := s.cells.modify c fun cell => { cell with data := f cell.data } }

/-- The registered cell of a key. -/
def lookupKey (s : Store) (key : VertexKey) : Option CellId := s.table.get? key

/-- The registered cell of an identifier. -/
def lookup (s : Store) (id : String) : Option CellId :=
  (s.lookupKey (.of id)).filter fun c => (s.cell c).id == id

/-- Whether a vertex is registered. -/
def contains (s : Store) (id : String) : Bool := (s.lookup id).isSome

/-- The registered cells. -/
def registered (s : Store) : List CellId := s.table.values

/-- Registers a new cell. -/
def addCell (s : Store) (cell : Cell) : Store :=
  { s with cells := s.cells.push cell, table := s.table.insert cell.key s.cells.size }

/-- Takes a cell out of the table, if it is the registered one of its key. -/
def unlink (s : Store) (c : CellId) : Store :=
  let key := (s.cell c).key
  if s.lookupKey key = some c then { s with table := s.table.erase key } else s

/-- Takes a vertex out of the graph. -/
def remove (s : Store) (c : CellId) : Store :=
  (s.modifyData c fun d => { d with deleted := true }).unlink c

/-- Takes a virtual vertex without arcs out of the graph. -/
def collectOrphan (s : Store) (c : CellId) : Store :=
  if (s.data c).isOrphan then s.remove c else s

/-- The attributes of a cell. -/
def info (s : Store) (c : CellId) : VertexInfo :=
  let cell := s.cell c
  let d := cell.data
  { id := cell.id
    key := cell.key
    type := d.type.bind s.labels.types.decode?
    manifestation := d.manifestation
    indegree := d.indegree
    outdegree := d.outdegree
    created := d.created
    modified := d.modified
    expires := d.expires
    properties := d.properties
    vector := d.vector }

/-- Schedules the expiration of an item. -/
def scheduleAt (s : Store) (item : Expiring) (time : UInt32) : Store :=
  { s with schedule := s.schedule.set item time }

theorem lookupKey_modifyData (s : Store) (c : CellId) (f : VertexData → VertexData)
    (key : VertexKey) : (s.modifyData c f).lookupKey key = s.lookupKey key := rfl

/-- Changing the data of a cell changes no other cell. -/
theorem data_modifyData {s : Store} {c : CellId} (h : c < s.cells.size)
    (f : VertexData → VertexData) (c' : CellId) :
    (s.modifyData c f).data c' = if c = c' then f (s.data c) else s.data c' := by
  simp only [data, cell, modifyData, Array.getElem?_modify]
  split
  next e =>
    subst e
    simp [h]
  next e => rfl

/-! ## Identifiers and probes -/

/-- What is wrong with an identifier. -/
def identifierFault? (s : Store) (id : String) : Option VertexFault :=
  if id.isEmpty then some .emptyIdentifier
  else if s.config.maxIdentifierLength < id.utf8ByteSize then
    some (.identifierTooLong s.config.maxIdentifierLength)
  else none

/-- The filter of a probe in this store. -/
def filterOf (s : Store) (p : Probe) : Except Error ArcFilter := ArcFilter.ofProbe s.labels p

/-! ## Locks -/

/-- A cell as an item to be held. -/
def lockItem (s : Store) (c : CellId) : LockItem :=
  { slot := c, ordinal := (s.cell c).key.value, label := (s.cell c).id }

/-- Gives up a hold on a vertex.  The last writable hold on a virtual vertex
without arcs takes that vertex out of the graph. -/
def drop (s : Store) (g : Guard) : Store :=
  let s := if g.isWritable && s.locks.isOutermost g then s.collectOrphan g.item.slot else s
  { s with locks := s.locks.release g }

def dropAll (s : Store) (guards : List Guard) : Store := guards.foldl drop s

end Store

/-! ## Actions -/

namespace Action

/-- The outcome of an action on a store, and the store afterwards. -/
def run {α : Type} (a : Action α) (s : Store) : Except Error α × Store := StateT.run (ExceptT.run a) s

/-- An action from its outcome on every store. -/
def ofFun {α : Type} (f : Store → Except Error α × Store) : Action α := ExceptT.mk f

/-- Reads something off the store. -/
def read {α : Type} (f : Store → α) : Action α := ofFun fun s => (.ok (f s), s)

/-- Changes the store. -/
def update (f : Store → Store) : Action Unit := ofFun fun s => (.ok (), f s)

/-- The value, or the failure, of an outcome. -/
def ofExcept {α : Type} (r : Except Error α) : Action α := ofFun fun s => (r, s)

/-- Fails. -/
def fail {α : Type} (e : Error) : Action α := ofExcept (.error e)

/-- Fails with a fault, if there is one. -/
def refuse (fault : Option VertexFault) : Action Unit :=
  match fault with
  | some f => fail (.vertex f)
  | none => pure ()

/-- Runs an action, and then changes the store whether it failed or not. -/
def ensuring {α : Type} (a : Action α) (f : Store → Store) : Action α :=
  ofFun fun s =>
    let (r, s) := a.run s
    (r, f s)

/-- Runs an action and goes on with its outcome. -/
def attempt {α : Type} (a : Action α) : Action (Except Error α) :=
  ofFun fun s =>
    let (r, s) := a.run s
    (.ok r, s)

@[simp] theorem run_ofFun {α : Type} (f : Store → Except Error α × Store) (s : Store) :
    (ofFun f).run s = f s := rfl

@[simp] theorem run_pure {α : Type} (a : α) (s : Store) :
    (pure a : Action α).run s = (.ok a, s) := rfl

theorem run_bind {α β : Type} (a : Action α) (f : α → Action β) (s : Store) :
    (a >>= f).run s =
      match a.run s with
      | (.ok x, s) => (f x).run s
      | (.error e, s) => (.error e, s) := by
  simp only [run, ExceptT.run_bind, StateT.run_bind]
  generalize StateT.run (ExceptT.run a) s = r
  obtain ⟨r, s'⟩ := r
  cases r <;> rfl

/-- Refuses while the graph is read-only. -/
def checkWritable : Action Unit := ofFun fun s => (s.locks.checkWritable.mapError .access, s)

/-- Holds a cell in a mode. -/
def acquire (who : Caller) (c : CellId) (mode : LockMode) : Action Guard :=
  ofFun fun s =>
    match s.locks.acquire who.thread (s.lockItem c) mode with
    | .ok (g, locks) => (.ok g, { s with locks })
    | .error e => (.error (.access e), s)

/-- Holds all cells in a mode, or none. -/
def acquireMany (who : Caller) (cells : List CellId) (mode : LockMode) : Action (List Guard) :=
  ofFun fun s =>
    let (r, locks) := s.locks.acquireMany who.thread (cells.map s.lockItem) mode
    (r, { s with locks })

/-- Runs an action while a cell is held. -/
def holding {α : Type} (who : Caller) (c : CellId) (mode : LockMode) (body : Action α) :
    Action α := do
  let g ← acquire who c mode
  ensuring body fun s => s.drop g

/-- Runs an action while several cells are held. -/
def holdingMany {α : Type} (who : Caller) (cells : List CellId) (mode : LockMode)
    (body : Action α) : Action α := do
  let guards ← acquireMany who cells mode
  ensuring body fun s => s.dropAll guards

/-- The registered cell of an identifier that has to exist. -/
def find (id : String) : Action CellId := do
  match ← read (·.lookup id) with
  | some c => return c
  | none => fail (.key (.missing id))

/-- The registered cell of an identifier; a missing vertex is created, free and
without arcs.  Says whether it was. -/
def findOrAdd (who : Caller) (id : String) (manifestation : Manifestation) :
    Action (CellId × Bool) := do
  refuse (← read (·.identifierFault? id))
  let key := VertexKey.of id
  match ← read (·.lookupKey key) with
  | some c =>
    let present ← read fun s => (s.cell c).id
    if present = id then return (c, false)
    else fail (.vertex (.collision id present))
  | none =>
    let c ← read (·.cells.size)
    update (·.addCell { id, key, data := .new manifestation who.now })
    return (c, true)

/-- The code of a relationship label, a new one if need be. -/
def encodeRelationship (label : String) : Action LabelCode := ofFun fun s =>
  let (code, labels) := s.labels.encodeRelationship label
  (code, { s with labels })

/-- The code of a vertex type label, a new one if need be. -/
def encodeType (label : String) : Action LabelCode := ofFun fun s =>
  let (code, labels) := s.labels.encodeType label
  (code, { s with labels })

end Action

end Arcbase
