import Arcbase.Lock.Table
set_option autoImplicit false

/-!
# Guards under names

A lock session is a lock table with the guards that its threads hold.  Every
thread gives its guards names of its own; a guard that is replaced under its name
is given back once the new one is there.  An answer shows a guard as it is when it
is got, before any other one is given back.
-/

namespace Arcbase

/-- The name a thread has for a guard. -/
structure GuardName where
  thread : Thread
  name : String
  deriving DecidableEq, Repr

/-- A guard as it shows: its item, its access, and the levels its thread has. -/
structure GuardView where
  item : LockItem
  mode : LockMode
  levels : Nat
  deriving Repr

/-- The view of a guard. -/
def LockTable.view (t : LockTable) (g : Guard) : GuardView :=
  { item := g.item, mode := g.mode, levels := t.levels g }

/-- A lock table and the guards that are held. -/
structure LockSession where
  table : LockTable
  guards : AssocMap GuardName Guard := .empty
  deriving Repr

namespace LockSession

def new (limit defaultWait : Nat) : LockSession := { table := .new limit defaultWait }

def guard? (s : LockSession) (name : GuardName) : Option Guard := s.guards.get? name

/-- Gives a guard back, if it is held. -/
def drop (s : LockSession) (name : GuardName) : LockSession :=
  match s.guard? name with
  | some g => { table := s.table.release g, guards := s.guards.erase name }
  | none => s

/-- Holds a guard under a name. -/
def keep (s : LockSession) (name : GuardName) (g : Guard) : LockSession :=
  let s := s.drop name
  { s with guards := s.guards.insert name g }

/-- Holds guards under names; one without a name is given back. -/
def keepAll (s : LockSession) (thread : Thread) : List String → List Guard → LockSession
  | name :: names, g :: guards => (s.keep ⟨thread, name⟩ g).keepAll thread names guards
  | [], g :: guards => { s with table := s.table.release g }.keepAll thread [] guards
  | _, [] => s

/-- Access to an item. -/
def acquire (s : LockSession) (name : GuardName) (item : LockItem) (mode : LockMode) :
    Except AccessError GuardView × LockSession :=
  match s.table.acquire name.thread item mode with
  | .ok (g, table) => (.ok (table.view g), { s with table }.keep name g)
  | .error e => (.error e, s)

/-- Access to several items, or to none. -/
def acquireMany (s : LockSession) (thread : Thread) (names : List String)
    (items : List LockItem) (mode : LockMode) : Except Error (List GuardView) × LockSession :=
  match s.table.acquireMany thread items mode with
  | (.ok guards, table) =>
    (.ok (guards.map table.view), { s with table }.keepAll thread names guards)
  | (.error e, table) => (.error e, { s with table })

/-- Turns a readonly guard into a writable one. -/
def escalate (s : LockSession) (name : GuardName) :
    Option (Except AccessError Guard × LockSession) :=
  (s.guard? name).map fun g =>
    match s.table.escalate g with
    | .ok (g, table) => (.ok g, { table, guards := s.guards.insert name g })
    | .error e => (.error e, s)

/-- Turns a writable guard into a readonly one, or closes one of its levels. -/
def relax (s : LockSession) (name : GuardName) : Option (Option GuardView × LockSession) :=
  (s.guard? name).map fun g =>
    match s.table.relax g with
    | (some g, table) => (some (table.view g), { table, guards := s.guards.insert name g })
    | (none, table) => (none, { table, guards := s.guards.erase name })

/-- Raises the read-only flag. -/
def setReadonly (s : LockSession) (graph : String) : Except AccessError Unit × LockSession :=
  let (r, table) := s.table.setReadonly graph
  (r, { s with table })

def clearReadonly (s : LockSession) : LockSession := { s with table := s.table.clearReadonly }

end LockSession

end Arcbase
