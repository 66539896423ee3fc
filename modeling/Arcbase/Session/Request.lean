import Arcbase.Query.Result
import Arcbase.Store.Disconnect
import Arcbase.Store.Expiration
import Arcbase.Store.Handle
import Arcbase.Store.Reading
import Arcbase.Store.Snapshot
import Arcbase.Text.Quoted
set_option autoImplicit false

/-!
# Requests

All that can be asked of a graph without a handle, each request with the type of
its answer; and all that can be asked through a handle.
-/

namespace Arcbase

/-- What can be asked of a graph. -/
inductive Request : Type → Type 1 where
  | create (id : String) (type : Option String) : Request Nat
  | delete (id : String) : Request Nat
  | contains (id : String) : Request Bool
  | info (id : String) : Request VertexInfo
  | connect (r : ConnectRequest) : Request Nat
  | disconnect (anchor : String) (probe : Probe) (neighbor : Option String) : Request Nat
  | count (initial relationship terminal : String) (delta : Option Int) : Request UInt32
  | accumulate (initial relationship terminal : String) (delta : Option Binary64) :
      Request Binary32
  | addTo (initial relationship terminal : String) (kind : ArcKind) (delta : Binary64) :
      Request ArcValue
  | arcValue (initial : String) (probe : Probe) (terminal : String) : Request (Option ArcValue)
  | adjacent (anchor : String) (probe : Probe) (neighbor : Option String) : Request Bool
  | degree (anchor : String) (probe : Option Probe) : Request Nat
  | neighborhood (q : Query) : Request QueryResult
  | aggregate (q : Query) : Request Aggregation
  | terminals (anchor : String) (relationship : Option String) (timeout : Option Nat) :
      Request (List String)
  | initials (anchor : String) (relationship : Option String) (timeout : Option Nat) :
      Request (List String)
  | outarcs (anchor : String) (timeout : Option Nat) : Request (List ArcRecord)
  | inarcs (anchor : String) (timeout : Option Nat) : Request (List ArcRecord)
  | setReadonly : Request Unit
  | clearReadonly : Request Unit
  | markExpiring (id : String) (time : UInt32) : Request Unit
  | markArcExpiring (initial relationship terminal : String) (time : UInt32) : Request Unit
  | runExpiration (time : UInt32) : Request ExpirationReport
  | snapshot : Request Snapshot
  | restore (s : Snapshot) : Request Unit

/-- Carries a request out. -/
def Request.action {α : Type} (who : Caller) : Request α → Action α
  | create id type => Action.create who id type
  | delete id => Action.delete who id
  | contains id => Action.read (·.contains id)
  | info id => Action.vertexInfo who id
  | connect r => Action.connect who r
  | disconnect anchor probe neighbor => Action.disconnect who anchor probe neighbor
  | count initial relationship terminal delta =>
    Action.count who initial relationship terminal delta
  | accumulate initial relationship terminal delta =>
    Action.accumulate who initial relationship terminal delta
  | addTo initial relationship terminal kind delta =>
    Action.addTo who initial relationship terminal kind delta
  | arcValue initial probe terminal => Action.arcValue who initial probe terminal
  | adjacent anchor probe neighbor => Action.adjacent who anchor probe neighbor
  | degree anchor probe => Action.degree who anchor probe
  | neighborhood q => Action.neighborhood who q
  | aggregate q => Action.aggregate who q
  | terminals anchor relationship timeout => Action.terminals who anchor relationship timeout
  | initials anchor relationship timeout => Action.initials who anchor relationship timeout
  | outarcs anchor timeout => Action.outarcs who anchor timeout
  | inarcs anchor timeout => Action.inarcs who anchor timeout
  | setReadonly => Action.setReadonly
  | clearReadonly => Action.clearReadonly
  | markExpiring id time => Action.markExpiring who id time
  | markArcExpiring initial relationship terminal time =>
    Action.markArcExpiring who initial relationship terminal time
  | runExpiration time => Action.runExpiration who time
  | snapshot => Action.snapshot who
  | restore s => Action.restore s

/-- A vertex as it shows through a handle. -/
structure HandleView where
  mode : LockMode
  /-- Levels the handle's thread has on the vertex. -/
  levels : Nat
  info : VertexInfo
  deriving Repr

/-- The handle for logs. -/
def HandleView.describe (v : HandleView) : String :=
  "VertexHandle \x7b id: " ++ Text.quoted v.info.id ++ ", mode: " ++ v.mode.name ++ " \x7d"

/-- What can be asked through a handle that stays open. -/
inductive HandleRequest : Type → Type 1 where
  | view : HandleRequest HandleView
  | setProperty (name : String) (value : PropertyValue) : HandleRequest Unit
  | removeProperty (name : String) : HandleRequest (Option PropertyValue)
  | setVector (vector : List Binary32) : HandleRequest Unit
  | setExpiration (time : UInt32) : HandleRequest Unit

/-- Carries a request out through the handle of a guard. -/
def HandleRequest.action {α : Type} (who : Caller) (g : Guard) : HandleRequest α → Action α
  | view => Action.read fun s =>
    { mode := g.mode, levels := s.locks.levels g, info := s.info g.item.slot }
  | setProperty name value => Action.setProperty who g name value
  | removeProperty name => Action.removeProperty who g name
  | setVector vector => Action.setVector who g vector
  | setExpiration time => Action.setExpiration g time

end Arcbase
