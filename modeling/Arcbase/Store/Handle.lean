import Arcbase.Store.Basic
set_option autoImplicit false

/-!
# Working through a handle

A handle is a guard on a cell.  Changing a vertex through its handle takes
writable access; reading takes any.
-/

namespace Arcbase.Action

/-- Refuses a handle that is not writable. -/
def requireWritable (g : Guard) : Action Unit :=
  if g.isWritable then pure () else fail (.access .notHeld)

/-- Gives a property a value. -/
def setProperty (who : Caller) (g : Guard) (name : String) (value : PropertyValue) :
    Action Unit := do
  requireWritable g
  update (·.modifyData g.item.slot fun d =>
    { d with properties := d.properties.insert name value, modified := who.now })

/-- Forgets a property, with the value it had. -/
def removeProperty (who : Caller) (g : Guard) (name : String) :
    Action (Option PropertyValue) := do
  requireWritable g
  let old ← read fun s => (s.data g.item.slot).properties.get? name
  if old.isSome then
    update (·.modifyData g.item.slot fun d =>
      { d with properties := d.properties.erase name, modified := who.now })
  return old

/-- Sets the vector; its elements have to be finite. -/
def setVector (who : Caller) (g : Guard) (vector : List Binary32) : Action Unit := do
  requireWritable g
  if vector.all (·.isFinite) then
    update (·.modifyData g.item.slot fun d =>
      { d with vector := some vector, modified := who.now })
  else
    fail (.vertex (.vectorNotFinite g.item.label))

/-- Sets the time at which the vertex expires. -/
def setExpiration (g : Guard) (time : UInt32) : Action Unit := do
  requireWritable g
  update fun s =>
    (s.modifyData g.item.slot fun d => { d with expires := some time }).scheduleAt
      (.vertex g.item.label) time

/-- Turns a readonly handle into a writable one. -/
def escalate (g : Guard) : Action Guard := ofFun fun s =>
  match s.locks.escalate g with
  | .ok (g, locks) => (.ok g, { s with locks })
  | .error e => (.error (.access e), s)

/-- Turns a writable handle into a readonly one; an inner writable level is
closed instead.  A vertex that this took out of its graph cannot be held on. -/
def relax (g : Guard) : Action (Option Guard) := do
  update fun s =>
    if g.isWritable && s.locks.isOutermost g then s.collectOrphan g.item.slot else s
  let relaxed ← ofFun fun s =>
    let (r, locks) := s.locks.relax g
    (.ok r, { s with locks })
  match relaxed with
  | none => return none
  | some g =>
    if ← read fun s => (s.data g.item.slot).deleted then
      update (·.drop g)
      fail (.key (.removedOnRelax g.item.label))
    else return some g

/-- Gives up a handle. -/
def close (g : Guard) : Action Unit := update (·.drop g)

end Arcbase.Action
