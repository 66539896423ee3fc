import Arcbase.Session.Basic
import Arcbase.Snapshot.Json
set_option autoImplicit false

/-!
# Workspaces

A workspace is a number of named graphs under one clock.  Several of them may use
the same label tables, so the tables are kept beside the graphs and handed to the
one that is at work.

A graph that loses its name to another one is kept, for handles may be open on it.
-/

namespace Arcbase

/-- A graph of a workspace. -/
structure Graph where
  session : Session
  /-- The place of its label tables. -/
  tables : Nat
  /-- Whether the tables were made for this graph alone. -/
  ownTables : Bool

/-- Named graphs. -/
structure Workspace where
  clock : UInt32
  tables : Array Labels := #[]
  graphs : Array Graph := #[]
  /-- The places of the graphs that have a name. -/
  names : AssocMap String Nat := .empty

namespace Workspace

/-! ## Graphs -/

/-- The place of a graph. -/
def place? (w : Workspace) (name : String) : Option Nat := w.names.get? name

def graph? (w : Workspace) (name : String) : Option Graph := (w.place? name).bind (w.graphs[·]?)

/-- The label tables of a graph. -/
def labels? (w : Workspace) (name : String) : Option Labels :=
  (w.graph? name).bind fun g => w.tables[g.tables]?

/-- The place of the label tables of a graph, if they are open to others. -/
def openTables? (w : Workspace) (name : String) : Option Nat :=
  ((w.graph? name).filter fun g => !g.ownTables).map Graph.tables

/-- The label tables of a graph, if they are open to others. -/
def openLabels? (w : Workspace) (name : String) : Option Labels :=
  (w.openTables? name).bind (w.tables[·]?)

def status? (w : Workspace) (name : String) : Option Session.Status :=
  (w.graph? name).map (·.session.status)

/-- Gives a graph a name, which it may take from another one. -/
def addGraph (w : Workspace) (name : String) (g : Graph) : Workspace :=
  { w with graphs := w.graphs.push g, names := w.names.insert name w.graphs.size }

/-- Adds an empty graph with new label tables, for itself or open to others. -/
def create (w : Workspace) (name : String) (config : Config) (ownTables : Bool) : Workspace :=
  let labels := Labels.withCapacity config.maxRelationships config.maxVertexTypes
  { w with tables := w.tables.push labels }.addGraph name
    { session := .new config labels, tables := w.tables.size, ownTables }

/-- Adds an empty graph that shares the label tables of another one if they are open
to others; if not, it gets new ones. -/
def createSharing (w : Workspace) (name other : String) (config : Config) (ownTables : Bool) :
    Workspace :=
  match w.openTables? other, w.openLabels? other with
  | some tables, some labels =>
    w.addGraph name { session := .new config labels, tables, ownTables := false }
  | _, _ => w.create name config ownTables

/-- Lets a graph work, under its label tables. -/
def onGraph {α : Type} (w : Workspace) (place : Nat) (f : Session → α × Session) :
    Option (α × Workspace) := do
  let g ← w.graphs[place]?
  let labels ← w.tables[g.tables]?
  let (a, session) := f { g.session with store := { g.session.store with labels } }
  return (a,
    { w with
      graphs := w.graphs.set! place { g with session }
      tables := w.tables.set! g.tables session.store.labels })

/-- Lets a named graph work. -/
def on {α : Type} (w : Workspace) (name : String) (f : Session → α × Session) :
    Option (α × Workspace) := do
  w.onGraph (← w.place? name) f

/-- The caller that a thread is now. -/
def caller (w : Workspace) (thread : Thread) : Caller := { thread, now := w.clock }

/-- Carries a request out on a named graph. -/
def ask {α : Type} (w : Workspace) (name : String) (thread : Thread) (r : Request α) :
    Option (Except Error α × Workspace) :=
  w.on name fun s => s.ask (w.caller thread) r

/-- Adds a graph that is restored from a text, under the name in that text, which
is answered.  The name it gets in the workspace is taken only if that succeeds. -/
def load (w : Workspace) (name : String) (thread : Thread) (config : Config) (text : String) :
    Except Error String × Workspace :=
  match Snapshot.parse text with
  | .error e => (.error e, w)
  | .ok snapshot =>
    let loaded := w.create name { config with name := snapshot.name } true
    match loaded.ask name thread (.restore snapshot) with
    | some (.ok (), loaded) => (.ok snapshot.name, loaded)
    | some (.error e, _) => (.error e, w)
    | none => (.ok snapshot.name, w)

/-- Restores a graph from another one. -/
def copy (w : Workspace) (name source : String) (thread : Thread) :
    Option (Except Error Unit × Workspace) := do
  match ← w.ask source thread .snapshot with
  | (.error e, w) => return (.error e, w)
  | (.ok snapshot, w) => w.ask name thread (.restore snapshot)

/-! ## Handles -/

/-- The place of the graph on which a handle is open. -/
def homeOf? (w : Workspace) (name : GuardName) : Option Nat :=
  w.graphs.findIdx? fun g => g.session.handles.contains name

/-- Lets the graph of a handle work. -/
def onHandle {α : Type} (w : Workspace) (name : GuardName)
    (f : Session → Option (α × Session)) : Option (α × Workspace) := do
  let place ← w.homeOf? name
  let (answer, w) ← w.onGraph place fun s =>
    match f s with
    | some (a, s) => (some a, s)
    | none => (none, s)
  return (← answer, w)

/-- Closes handles on other graphs than the one at a place. -/
def closeElsewhere (w : Workspace) (place : Nat) (names : List GuardName) : Workspace :=
  { w with
    graphs := w.graphs.mapIdx fun i g =>
      if i = place then g else { g with session := names.foldl Session.close g.session } }

/-- Opens a vertex of a named graph. -/
def openVertex (w : Workspace) (graph : String) (thread : Thread) (name id : String)
    (mode : OpenMode) : Option (Except Error HandleView × Workspace) := do
  let place ← w.place? graph
  let (answer, w') ← w.onGraph place fun s => s.openVertex (w.caller thread) name id mode
  match answer with
  | .error e => return (.error e, w')
  | .ok view => return (.ok view, w'.closeElsewhere place [⟨thread, name⟩])

/-- Opens several vertices of a named graph, or none. -/
def openVertices (w : Workspace) (graph : String) (thread : Thread) (names ids : List String)
    (mode : OpenMode) : Option (Except Error (List HandleView) × Workspace) := do
  let place ← w.place? graph
  let (answer, w') ← w.onGraph place fun s => s.openVertices (w.caller thread) names ids mode
  match answer with
  | .error e => return (.error e, w')
  | .ok views => return (.ok views,
    w'.closeElsewhere place ((names.take views.length).map fun n => ⟨thread, n⟩))

/-- Carries a request out through a handle. -/
def askHandle {α : Type} (w : Workspace) (thread : Thread) (name : String)
    (r : HandleRequest α) : Option (Except Error α × Workspace) :=
  w.onHandle ⟨thread, name⟩ fun s => s.askHandle (w.caller thread) name r

/-- Turns a readonly handle into a writable one. -/
def escalate (w : Workspace) (name : GuardName) : Option (Except Error LockMode × Workspace) :=
  w.onHandle name fun s => s.escalate name

/-- Turns a writable handle into a readonly one, or closes it. -/
def relax (w : Workspace) (name : GuardName) :
    Option (Except Error (Option HandleView) × Workspace) :=
  w.onHandle name fun s => s.relax name

/-- Closes a handle. -/
def close (w : Workspace) (name : GuardName) : Option (Unit × Workspace) :=
  w.onHandle name fun s => some ((), s.close name)

end Workspace

end Arcbase
