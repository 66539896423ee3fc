import Arcbase.AssocMap
import Arcbase.Error
set_option autoImplicit false

/-!
# Lock records

Every vertex has one lock record: free, read by some threads, or written by one.
A thread may hold a vertex several times; the record counts how often, for the
writer in `recursion` and for each reader beside its name.

| Request | Refused while | By the holder itself |
|---------|---------------|----------------------|
| readonly | another thread writes | one more level |
| writable | anyone else holds it | one more level for the writer; refused for a reader |
-/

namespace Arcbase

/-- A holder of locks. -/
structure Thread where
  name : String
  deriving DecidableEq, Repr

/-- What one guard holds. -/
inductive Hold where
  | reader
  | writer
  deriving DecidableEq, Repr

/-- The mode a hold amounts to.  Readonly access taken inside writable access is
a level of the latter. -/
def Hold.mode : Hold → LockMode
  | reader => .readonly
  | writer => .writable

/-- Who holds one vertex, and how often. -/
structure LockRecord where
  mode : LockMode := .none
  writer : Option Thread := none
  /-- Levels held by the writer. -/
  recursion : Nat := 0
  /-- Levels held by every reader. -/
  readers : AssocMap Thread Nat := .empty
  deriving Repr, DecidableEq

namespace LockRecord

/-- The record of a vertex nobody holds. -/
def free : LockRecord := {}

instance : Inhabited LockRecord := ⟨free⟩

/-- How the thread holds the vertex, if it does. -/
def heldBy (r : LockRecord) (me : Thread) : Option LockMode :=
  if r.writer = some me then some .writable
  else if r.readers.contains me then some .readonly
  else none

/-- Number of levels behind a hold of the thread. -/
def levels (r : LockRecord) (me : Thread) : Hold → Nat
  | .writer => r.recursion
  | .reader => (r.readers.get? me).getD 0

/-- One more level for the writer, up to the limit. -/
def reenter (r : LockRecord) (limit : Nat) (label : String) : Except AccessError LockRecord :=
  if limit ≤ r.recursion then .error (.recursionLimit label)
  else .ok { r with recursion := r.recursion + 1 }

/-- Readonly access for the thread. -/
def read (r : LockRecord) (me : Thread) (limit : Nat) (label : String) :
    Except AccessError (Hold × LockRecord) :=
  if r.writer = some me then (r.reenter limit label).map fun r => (.writer, r)
  else match r.readers.get? me with
    | some n =>
      if limit ≤ n then .error (.recursionLimit label)
      else .ok (.reader, { r with readers := r.readers.insert me (n + 1) })
    | none =>
      if r.mode = .writable then .error (.timeout label .readonly)
      else .ok (.reader, { r with mode := .readonly, readers := r.readers.insert me 1 })

/-- The record while the thread alone writes, at one level. -/
def writtenBy (r : LockRecord) (me : Thread) : LockRecord :=
  { r with mode := .writable, writer := some me, recursion := 1 }

/-- The record after one level of the writer is closed. -/
def closeWriter (r : LockRecord) : LockRecord :=
  if r.recursion ≤ 1 then { r with mode := .none, writer := none, recursion := 0 }
  else { r with recursion := r.recursion - 1 }

/-- The record after one level of the thread's reading is closed. -/
def closeReader (r : LockRecord) (me : Thread) : LockRecord :=
  let readers := match r.readers.get? me with
    | some n => if n ≤ 1 then r.readers.erase me else r.readers.insert me (n - 1)
    | none => r.readers
  { r with readers, mode := if readers.size = 0 then .none else r.mode }

/-- Whether the thread is the only reader, at one level. -/
def isSoleReader (r : LockRecord) (me : Thread) : Bool := r.readers.entries == [(me, 1)]

/-- The record after the writer, at its last level, goes on reading. -/
def downgrade (r : LockRecord) (me : Thread) : LockRecord :=
  { r with mode := .readonly, writer := none, recursion := 0, readers := AssocMap.empty.insert me 1 }

end LockRecord

end Arcbase
