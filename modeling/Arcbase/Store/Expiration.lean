import Arcbase.Store.Connect
import Arcbase.Store.Disconnect
import Arcbase.Store.Handle
set_option autoImplicit false

/-!
# Expiration

A vertex with an expiration time and a relationship with an expiration arc have
an entry each in the schedule.  A pass takes out what is due and deletes it; what
another thread stands in the way of is put back under its old time.
-/

namespace Arcbase

/-- What an expiration pass has done. -/
structure ExpirationReport where
  vertices : Nat := 0
  arcs : Nat := 0
  /-- Items put back for another try. -/
  requeued : Nat := 0
  /-- Items pending after the pass. -/
  pending : Nat := 0
  deriving DecidableEq, Repr

namespace Action

/-- Schedules a vertex for deletion. -/
def markExpiring (who : Caller) (id : String) (time : UInt32) : Action Unit := do
  checkWritable
  let g ← acquireExisting who id .writable
  ensuring (setExpiration g time) fun s => s.drop g

/-- Schedules the arcs of an existing relationship for removal, by an arc that
carries the time.  Both ends are held from the check to the write. -/
def markArcExpiring (who : Caller) (initial relationship terminal : String) (time : UInt32) :
    Action Unit := do
  checkWritable
  let missing : Error := .key (.noArc relationship initial terminal)
  let filter ← ofExcept (← read (·.filterOf (.along relationship .out)))
  match ← read (·.lookup initial), ← read (·.lookup terminal) with
  | some i, some t =>
    holdingMany who (if i = t then [i] else [i, t]) .writable do
      if ← read (·.hasOutArc i t filter) then
        let arc : ArcRequest :=
          { relationship, kind := .timeExpires, value := some (.ofNat time.toNat) }
        let _ ← connect who { initial, arc, terminals := .one terminal }
      else fail missing
  | _, _ => fail missing

/-- Deletes one due item: the vertices and arcs that are gone. -/
def expire (who : Caller) : Expiring → Action (Nat × Nat)
  | .vertex id => return (← delete who id, 0)
  | .arc initial relationship terminal =>
    return (0, ← disconnect who initial (.along relationship .out) (some terminal))

/-- Deletes the due items one after the other; what has to be tried again is
listed. -/
def expireAll (who : Caller) :
    List (UInt32 × Expiring) → Action (ExpirationReport × List (UInt32 × Expiring))
  | [] => return ({}, [])
  | (time, item) :: rest => do
    let outcome ← attempt (expire who item)
    let (report, again) ← expireAll who rest
    match outcome with
    | .ok (vertices, arcs) =>
      return ({ report with vertices := report.vertices + vertices, arcs := report.arcs + arcs },
        again)
    | .error e =>
      if e.isRetrySafe || e.partialCount.isSome then
        return ({ report with arcs := report.arcs + e.partialCount.getD 0 }, (time, item) :: again)
      else return (report, again)

/-- Deletes what is due at a time. -/
def runExpiration (who : Caller) (time : UInt32) : Action ExpirationReport := do
  checkWritable
  let due ← ofFun fun s =>
    let (due, schedule) := s.schedule.popDue time
    (.ok due, { s with schedule })
  let (report, again) ← expireAll who due
  update fun s =>
    { s with schedule := again.foldl (fun q (time, item) => q.requeue item time) s.schedule }
  return { report with requeued := again.length, pending := ← read (·.schedule.size) }

end Action

end Arcbase
