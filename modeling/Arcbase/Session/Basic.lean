import Arcbase.Lock.Session
import Arcbase.Session.Request
set_option autoImplicit false

/-!
# Sessions

A session is a graph with the handles that its threads have open.  Every thread
gives its handles names of its own.  A handle that is replaced under its name is
closed once the new one is open; an answer shows the new one as it is before that.
-/

namespace Arcbase

/-- A graph and its open handles. -/
structure Session where
  store : Store
  handles : AssocMap GuardName Guard := .empty

namespace Session

/-- A session on an empty graph. -/
def new (config : Config) (labels : Labels) : Session := { store := .new config labels }

/-- What is seen of a graph from outside: numbers of vertices and arcs, the
earliest expiration, and the read-only flag. -/
structure Status where
  order : Nat
  size : Nat
  nextExpiration : Option UInt32
  readonly : Bool
  deriving DecidableEq, Repr

def status (s : Session) : Status :=
  { order := s.store.order
    size := s.store.size
    nextExpiration := s.store.schedule.nextDue
    readonly := s.store.locks.readonly }

/-- Runs an action on the graph. -/
def perform {α : Type} (s : Session) (a : Action α) : Except Error α × Session :=
  let (r, store) := a.run s.store
  (r, { s with store })

/-- Carries a request out. -/
def ask {α : Type} (s : Session) (who : Caller) (r : Request α) : Except Error α × Session :=
  s.perform (r.action who)

/-! ## Handles -/

def handle? (s : Session) (name : GuardName) : Option Guard := s.handles.get? name

/-- The view of a handle. -/
def view (s : Session) (g : Guard) : HandleView :=
  { mode := g.mode, levels := s.store.locks.levels g, info := s.store.info g.item.slot }

/-- Closes a handle, if it is open. -/
def close (s : Session) (name : GuardName) : Session :=
  match s.handle? name with
  | some g => { store := s.store.drop g, handles := s.handles.erase name }
  | none => s

/-- Keeps a guard as a handle. -/
def keep (s : Session) (name : GuardName) (g : Guard) : Session :=
  let s := s.close name
  { s with handles := s.handles.insert name g }

/-- Opens a vertex. -/
def openVertex (s : Session) (who : Caller) (name : String) (id : String) (mode : OpenMode) :
    Except Error HandleView × Session :=
  match s.perform (Action.openVertex who id mode) with
  | (.error e, s) => (.error e, s)
  | (.ok g, s) => (.ok (s.view g), s.keep ⟨who.thread, name⟩ g)

/-- Keeps guards as handles; one without a name is given up. -/
def keepAll (s : Session) (thread : Thread) : List String → List Guard → Session
  | name :: names, g :: guards => (s.keep ⟨thread, name⟩ g).keepAll thread names guards
  | [], g :: guards => { s with store := s.store.drop g }.keepAll thread [] guards
  | _, [] => s

/-- Opens several vertices, or none. -/
def openVertices (s : Session) (who : Caller) (names ids : List String) (mode : OpenMode) :
    Except Error (List HandleView) × Session :=
  match s.perform (Action.openVertices who ids mode) with
  | (.error e, s) => (.error e, s)
  | (.ok guards, s) => (.ok (guards.map s.view), s.keepAll who.thread names guards)

/-- Carries a request out through a handle; nothing if it is not open. -/
def askHandle {α : Type} (s : Session) (who : Caller) (name : String) (r : HandleRequest α) :
    Option (Except Error α × Session) :=
  (s.handle? ⟨who.thread, name⟩).map fun g => s.perform (r.action who g)

/-- Turns a readonly handle into a writable one. -/
def escalate (s : Session) (name : GuardName) : Option (Except Error LockMode × Session) :=
  (s.handle? name).map fun g =>
    match s.perform (Action.escalate g) with
    | (.error e, s) => (.error e, s)
    | (.ok g, s) => (.ok g.mode, { s with handles := s.handles.insert name g })

/-- Turns a writable handle into a readonly one.  The handle is gone if that only
closed a level, and after an error. -/
def relax (s : Session) (name : GuardName) :
    Option (Except Error (Option HandleView) × Session) :=
  (s.handle? name).map fun g =>
    match s.perform (Action.relax g) with
    | (.error e, s) => (.error e, { s with handles := s.handles.erase name })
    | (.ok none, s) => (.ok none, { s with handles := s.handles.erase name })
    | (.ok (some g), s) =>
      let s := { s with handles := s.handles.insert name g }
      (.ok (some (s.view g)), s)

end Session

end Arcbase
