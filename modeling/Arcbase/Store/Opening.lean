import Arcbase.Store.Basic
set_option autoImplicit false

/-!
# Creating and opening vertices

Opening hands out guards, the handles by which callers hold vertices.  Writable
opening makes a virtual vertex real.
-/

namespace Arcbase.Action

/-- Creates a real vertex, or makes a virtual one real; the count is zero if the
vertex was real already.  A real vertex keeps its type. -/
def create (who : Caller) (id : String) (type : Option String) : Action Nat := do
  checkWritable
  let code ← type.mapM encodeType
  let (c, isNew) ← findOrAdd who id .real
  holding who c .writable do
    if isNew then
      update (·.modifyData c fun d => { d with type := code })
      return 1
    let d ← read (·.data c)
    match d.type, code with
    | some present, some wanted =>
      if present ≠ wanted ∧ d.manifestation = .real then
        let present ← read fun s => (s.labels.types.decode? present).getD ""
        fail (.vertex (.typeClash id present (type.getD "")))
    | _, _ => pure ()
    if code.isSome then update (·.modifyData c fun d => { d with type := code })
    update (·.modifyData c (·.promote who.now))
    return if d.manifestation = .virtual then 1 else 0

/-- Holds an existing vertex. -/
def acquireExisting (who : Caller) (id : String) (mode : LockMode) : Action Guard := do
  acquire who (← find id) mode

/-- Opens a vertex. -/
def openVertex (who : Caller) (id : String) (mode : OpenMode) : Action Guard := do
  match mode with
  | .readonly => acquireExisting who id .readonly
  | .append =>
    checkWritable
    let g ← acquireExisting who id .writable
    update (·.modifyData g.item.slot (·.promote who.now))
    return g
  | .write =>
    checkWritable
    let (c, _) ← findOrAdd who id .real
    let g ← acquire who c .writable
    update (·.modifyData c (·.promote who.now))
    return g

/-- The first text that has occurred before. -/
def repeated? : List String → List String → Option String
  | _, [] => none
  | seen, x :: rest => if seen.contains x then some x else repeated? (x :: seen) rest

/-- The cells of vertices that are to be opened; writing creates what is missing. -/
def cellsToOpen (who : Caller) (ids : List String) (mode : OpenMode) : Action (List CellId) :=
  ids.mapM fun id => do
    match mode with
    | .write => return (← findOrAdd who id .real).1
    | .readonly | .append => find id

/-- Opens vertices with different identifiers in a mode of their locks. -/
def openAll (who : Caller) (ids : List String) (mode : OpenMode) (lockMode : LockMode) :
    Action (List Guard) := do
  let cells ← cellsToOpen who ids mode
  let guards ← acquireMany who cells lockMode
  cells.forM fun c =>
    if lockMode = .writable then update (·.modifyData c (·.promote who.now)) else pure ()
  return cells.filterMap fun c => guards.find? fun g => g.item.slot == c

/-- Opens all vertices or none; the handles come in the order of the
identifiers. -/
def openVertices (who : Caller) (ids : List String) (mode : OpenMode) : Action (List Guard) :=
  match repeated? [] ids with
  | some id => fail (.vertex (.duplicateInRequest id))
  | none =>
    match mode with
    | .readonly => openAll who ids .readonly .readonly
    | .append | .write => do
      checkWritable
      openAll who ids mode .writable

/-- The attributes of a vertex. -/
def vertexInfo (who : Caller) (id : String) : Action VertexInfo := do
  let c ← find id
  holding who c .readonly (read (·.info c))

/-! ## The read-only flag -/

/-- Refuses all changes from now on, unless some vertex is held writable. -/
def setReadonly : Action Unit := ofFun fun s =>
  let (r, locks) := s.locks.setReadonly s.config.name
  (r.mapError .access, { s with locks })

def clearReadonly : Action Unit := update fun s => { s with locks := s.locks.clearReadonly }

end Arcbase.Action
