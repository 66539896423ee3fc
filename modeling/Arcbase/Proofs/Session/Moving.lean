import Arcbase.Proofs.Scene.Removing
import Arcbase.Proofs.Session.Reach
set_option autoImplicit false

/-!
# The moves of an operation

Every operation but a restore makes nothing but moves from one session to the next
(`Operation.moves_after`).  It may take out, or make virtual, only the vertices that it
dooms: a deletion the one of its identifier, and a pass those that are due.  A request that
fails has written no arcs (`Session.moves_perform`), and most operations never write any
(`Operation.moves_arcless`).
-/

namespace Arcbase

open Arcbase.Action Store

/-- The identifiers of the vertices that a request may take out though they are real. -/
def Request.Dooms {α : Type} (s : Store) : Request α → String → Prop
  | .delete id, id' => id' = id
  | .runExpiration time, id' => ∃ t ≤ time, s.schedule.time? (.vertex id') = some t
  | _, _ => False

variable {agree : Agreement} {D : String → Prop} {G : List Guard} {who : Caller}

namespace Action

theorem steady_setReadonly :
    Steady agree D G (fun _ => True) setReadonly Arcless fun _ _ => True := by
  intro s r s' _ hg _ hrun
  have hmoves : ∀ readonly, Moves D False ⟨G, [], s⟩
      ⟨G, [], { s with locks := { s.locks with readonly } }⟩ := fun readonly =>
    Move.moves (.locks (guarded_readonly hg readonly) (fun _ hw => hw)
      (fun g hm => .inr ⟨g, hm, rfl⟩) fun _ hc => .inl hc)
  simp only [setReadonly, run_ofFun, LockTable.setReadonly] at hrun
  split at hrun
  · cases hrun
    exact hmoves false
  · cases hrun
    exact ⟨hmoves true, trivial⟩

theorem steady_clearReadonly :
    Steady agree D G (fun _ => True) clearReadonly Arcless fun _ _ => True :=
  moving_update fun _ _ hg _ => ⟨Move.moves (.locks (guarded_readonly hg false) (fun _ hw => hw)
    (fun g hm => .inr ⟨g, hm, rfl⟩) fun _ hc => .inl hc), trivial⟩

end Action

/-- Whether a request may write arcs. -/
def Request.writesArcs {α : Type} : Request α → Bool
  | .connect _ | .count .. | .accumulate .. | .addTo .. | .markArcExpiring .. | .restore _ => true
  | _ => false

/-- A request that writes no arcs takes out nothing but orphans and what it dooms. -/
theorem steady_arcless {α : Type} {r : Request α} (hr : r.writesArcs = false) :
    Steady agree D G (fun s => ∀ id, r.Dooms s id → D id) (r.action who) Arcless
      fun _ _ => True := by
  have hquiet : ∀ {α : Type} {a : Action α}, Quiet agree G (fun _ => True) a (fun _ _ => True) →
      Steady agree D G (fun _ => True) a Arcless fun _ _ => True := fun h => h.moving
  have hany : Steady agree D G (fun _ => True) (r.action who) Arcless (fun _ _ => True) →
      Steady agree D G (fun s => ∀ id, r.Dooms s id → D id) (r.action who) Arcless
        fun _ _ => True := fun h => h.weaken (fun _ _ => trivial) (fun _ h => h) fun _ _ h => h
  cases r with
  | create id type => exact hany (steady_create id type)
  | delete id =>
    refine .intro (fun _ h => h id rfl) fun hD => ?_
    exact (steady_delete hD).weaken (fun _ _ => trivial) (fun _ h => h) fun _ _ h => h
  | contains id => exact moving_read fun _ _ _ => trivial
  | info id => exact hany (hquiet (quiet_vertexInfo id))
  | disconnect anchor probe neighbor => exact hany (steady_disconnect anchor probe neighbor)
  | arcValue initial probe terminal => exact hany (hquiet (quiet_arcValue initial probe terminal))
  | adjacent anchor probe neighbor => exact hany (hquiet (quiet_adjacent anchor probe neighbor))
  | degree anchor probe => exact hany (hquiet (quiet_degree anchor probe))
  | neighborhood q => exact hany (hquiet (quiet_neighborhood q))
  | aggregate q => exact hany (hquiet (quiet_aggregate q))
  | terminals anchor relationship timeout => exact hany (hquiet (quiet_ofNeighborhood _ _))
  | initials anchor relationship timeout => exact hany (hquiet (quiet_ofNeighborhood _ _))
  | outarcs anchor timeout => exact hany (hquiet (quiet_ofNeighborhood _ _))
  | inarcs anchor timeout => exact hany (hquiet (quiet_ofNeighborhood _ _))
  | setReadonly => exact hany steady_setReadonly
  | clearReadonly => exact hany steady_clearReadonly
  | markExpiring id time => exact hany (steady_markExpiring id time)
  | runExpiration time =>
    refine (steady_runExpiration time).weaken (fun s h id t hdue hle => ?_) (fun _ h => h)
      fun _ _ h => h
    exact h id ⟨t, hle, hdue⟩
  | snapshot => exact hany (hquiet quiet_snapshot)
  | _ => cases hr

/-- A request takes out nothing but orphans and what it dooms. -/
theorem steady_request {α : Type} (r : Request α) (hr : r.isRestore = false) :
    Steady agree D G (fun s => s.labels.relationships.Valid ∧ ∀ id, r.Dooms s id → D id)
      (r.action who) (fun _ => True) fun _ _ => True := by
  by_cases harcs : r.writesArcs = false
  · exact (steady_arcless harcs).weaken (fun _ h => h.2) (fun _ => False.elim) fun _ _ h => h
  cases r with
  | connect r => exact (steady_connect r).weaken (fun _ h => h.1) (fun _ h => h) fun _ _ h => h
  | count initial relationship terminal delta =>
    exact (steady_count _ _ _ _).weaken (fun _ h => h.1) (fun _ h => h) fun _ _ h => h
  | accumulate initial relationship terminal delta =>
    exact (steady_accumulate _ _ _ _).weaken (fun _ h => h.1) (fun _ h => h) fun _ _ h => h
  | addTo initial relationship terminal kind delta =>
    exact (steady_addTo _ _ _ _ _).weaken (fun _ h => h.1) (fun _ h => h) fun _ _ h => h
  | markArcExpiring initial relationship terminal time =>
    exact (steady_markArcExpiring _ _ _ _).weaken (fun _ h => h.1) (fun _ h => h) fun _ _ h => h
  | restore s => cases hr
  | _ => exact absurd rfl harcs

theorem steady_handleRequest {α : Type} {g : Guard} (r : HandleRequest α) :
    Steady agree D G (fun _ => True) (r.action who g) Arcless fun _ _ => True := by
  cases r with
  | view => exact moving_read fun _ _ h => h
  | setProperty name value => exact steady_setProperty name value
  | removeProperty name => exact steady_removeProperty name
  | setVector vector => exact steady_setVector vector
  | setExpiration time => exact steady_setExpiration time

/-! ## Sessions -/

namespace Session

variable {s : Session} {new : List Guard}

/-- A session as a scene: the guards are those of the open handles. -/
def scene (s : Session) : Scene := ⟨s.guards, [], s.store⟩

theorem Sound.ordered (hs : s.Sound agree) : s.scene.Ordered agree := ⟨hs.store, hs.guarded⟩

/-- What an action does while the handles are open; if it fails it has written no arcs. -/
theorem moves_perform {α : Type} {a : Action α} {P : Store → Prop} {A : α → Prop}
    {Q : α → Store → Prop} (hs : s.Sound agree) (hp : P s.store)
    (ha : Steady agree D s.guards P a A Q) :
    Moves D (∃ x, (s.perform a).1 = .ok x ∧ A x) s.scene (s.perform a).2.scene := by
  cases hrun : a.run s.store with
  | mk r store =>
    have hr := ha s.store r store hs.store hs.guarded hp hrun
    simp only [perform, hrun]
    cases r with
    | error e => exact hr.mono (fun _ => id) False.elim
    | ok x => exact hr.1.mono (fun _ => id) fun hA => ⟨x, rfl, hA⟩

variable (new) in
theorem moves_close {A : Prop} (hg : s.store.Guarded (new ++ s.guards)) (name : GuardName) :
    Moves D A ⟨new ++ s.guards, [], s.store⟩
      ⟨new ++ (s.close name).guards, [], (s.close name).store⟩ := by
  unfold close
  cases hold : s.handle? name with
  | none => exact .refl
  | some g =>
    have hperm : (new ++ s.guards).Perm (g :: (new ++ (s.handles.erase name).values)) :=
      ((guards_perm_of_handle? hold).append_left new).trans List.perm_middle
    exact (move_perm hperm hg).moves.tail (move_drop (hg.perm hperm))

variable (new) in
theorem moves_keep {A : Prop} {g : Guard} (hs : s.store.Sound agree)
    (hg : s.store.Guarded (g :: new ++ s.guards)) (name : GuardName) :
    Moves D A ⟨g :: new ++ s.guards, [], s.store⟩
      ⟨new ++ (s.keep name g).guards, [], (s.keep name g).store⟩ := by
  have hclosed := moves_close (D := D) (A := A) (g :: new) hg name
  exact hclosed.tail (move_perm (perm_keep s name g new) (Moves.ordered hclosed ⟨hs, hg⟩).guarded)

theorem moves_keepAll {A : Prop} (hs : s.store.Sound agree)
    (hg : s.store.Guarded (new ++ s.guards)) (u : Thread) (names : List String) :
    Moves D A ⟨new ++ s.guards, [], s.store⟩ (s.keepAll u names new).scene := by
  induction new generalizing s names with
  | nil => cases names <;> exact .refl
  | cons g rest ih =>
    cases names with
    | nil =>
      have m := move_drop (D := D) (A := A) (F := []) hg
      have hordered := m.ordered ⟨hs, hg⟩
      exact .head m
        (ih (s := { s with store := s.store.drop g }) hordered.sound hordered.guarded [])
    | cons name names =>
      have m := moves_keep (D := D) (A := A) _ hs hg ⟨u, name⟩
      have hordered := Moves.ordered m ⟨hs, hg⟩
      exact m.trans (ih hordered.sound hordered.guarded names)

theorem moves_openVertex (hs : s.Sound agree) (name id : String) (mode : OpenMode) :
    Moves D False s.scene (s.openVertex who name id mode).2.scene := by
  cases hrun : (Action.openVertex who id mode).run s.store with
  | mk r store =>
    have hr := moving_openVertex (D := D) id mode s.store r store hs.store hs.guarded trivial hrun
    cases r with
    | error e =>
      simp only [openVertex, perform, hrun]
      exact hr
    | ok g =>
      simp only [openVertex, perform, hrun]
      have hordered := Moves.ordered hr.1 hs.ordered
      exact Relation.ReflTransGen.trans hr.1
        (moves_keep (s := { s with store }) [] hordered.sound hordered.guarded _)

theorem moves_openVertices (hs : s.Sound agree) (names ids : List String) (mode : OpenMode) :
    Moves D False s.scene (s.openVertices who names ids mode).2.scene := by
  cases hrun : (Action.openVertices who ids mode).run s.store with
  | mk r store =>
    have hr :=
      moving_openVertices (D := D) ids mode s.store r store hs.store hs.guarded trivial hrun
    cases r with
    | error e =>
      simp only [openVertices, perform, hrun]
      exact hr
    | ok new =>
      simp only [openVertices, perform, hrun]
      have hordered := Moves.ordered hr.1 hs.ordered
      exact Relation.ReflTransGen.trans hr.1
        (moves_keepAll (s := { s with store }) hordered.sound hordered.guarded _ names)

/-- A handle's guard comes first, and others may come in its place. -/
theorem moves_handle {name : GuardName} {g : Guard} (hs : s.Sound agree)
    (hg : s.handle? name = some g) {G' : List Guard} {store : Store} {A : Prop} {s' : Session}
    (m : Moves D A ⟨g :: (s.handles.erase name).values, [], s.store⟩ ⟨G', [], store⟩)
    (hstore : s'.store = store) (hguards : G'.Perm s'.guards) : Moves D A s.scene s'.scene := by
  subst hstore
  have hperm := guards_perm_of_handle? hg
  have hordered := Moves.ordered m ⟨hs.store, hs.guarded.perm hperm⟩
  exact (m.head (move_perm hperm hs.guarded)).tail (move_perm hguards hordered.guarded)

theorem moves_escalate (hs : s.Sound agree) {name : GuardName} {r : Except Error LockMode}
    {s' : Session} (hrun : s.escalate name = some (r, s')) : Moves D False s.scene s'.scene := by
  obtain ⟨g, hg, hrun⟩ := Option.map_eq_some_iff.1 hrun
  have hperm := guards_perm_of_handle? hg
  cases hrun' : (Action.escalate g).run s.store with
  | mk outcome store =>
    have hr := moving_escalate (D := D) s.store outcome store hs.store (hs.guarded.perm hperm)
      trivial hrun'
    simp only [perform, hrun'] at hrun
    cases outcome with
    | error e =>
      cases hrun
      exact moves_handle hs hg hr rfl hperm.symm
    | ok g' =>
      cases hrun
      exact moves_handle hs hg hr.1 rfl (AssocMap.values_insert_perm s.handles name g').symm

theorem moves_relax (hs : s.Sound agree) {name : GuardName}
    {r : Except Error (Option HandleView)} {s' : Session} (hrun : s.relax name = some (r, s')) :
    Moves D False s.scene s'.scene := by
  obtain ⟨g, hg, hrun⟩ := Option.map_eq_some_iff.1 hrun
  have hperm := guards_perm_of_handle? hg
  cases hrun' : (Action.relax g).run s.store with
  | mk outcome store =>
    have hr := moving_relax (D := D) s.store outcome store hs.store (hs.guarded.perm hperm)
      trivial hrun'
    simp only [perform, hrun'] at hrun
    cases outcome with
    | error e =>
      cases hrun
      exact moves_handle hs hg hr rfl (.refl _)
    | ok relaxed =>
      cases relaxed with
      | none =>
        cases hrun
        exact moves_handle hs hg hr.1 rfl (.refl _)
      | some g' =>
        cases hrun
        exact moves_handle hs hg hr.1 rfl (AssocMap.values_insert_perm s.handles name g').symm

end Session

/-! ## Operations -/

namespace Operation

open Session

/-- The identifiers of the vertices that an operation may take out though they are real. -/
def Dooms (s : Session) : Operation → String → Prop
  | ask r => r.Dooms s.store
  | _ => fun _ => False

/-- Whether an operation may write arcs. -/
def writesArcs : Operation → Bool
  | ask r => r.writesArcs
  | _ => false

/-- An operation that writes no arcs makes only moves that write none. -/
theorem moves_arcless {s : Session} (hs : s.Sound agree) (who : Caller) {op : Operation}
    (h : op.writesArcs = false) : Moves (op.Dooms s) False s.scene (op.after who s).scene := by
  have hany : ∀ {s' : Session}, Moves (fun _ => False) False s.scene s'.scene →
      Moves (op.Dooms s) False s.scene s'.scene := fun m => m.mono (fun _ => False.elim) id
  cases op with
  | ask r =>
    refine (moves_perform hs (fun _ h => h) (steady_arcless h)).mono (fun _ h => h) ?_
    rintro ⟨_, _, hwrites⟩
    exact hwrites
  | openVertex name id mode => exact hany (moves_openVertex hs name id mode)
  | openVertices names ids mode => exact hany (moves_openVertices hs names ids mode)
  | askHandle name r =>
    cases hg : s.handle? ⟨who.thread, name⟩ with
    | none =>
      simp only [after, Session.askHandle, hg, Option.map_none, Option.getD_none]
      exact .refl
    | some g =>
      simp only [after, Session.askHandle, hg, Option.map_some, Option.getD_some]
      refine hany ((moves_perform hs trivial (steady_handleRequest r)).mono (fun _ => id) ?_)
      rintro ⟨_, _, hwrites⟩
      exact hwrites
  | escalate name =>
    cases hrun : s.escalate ⟨who.thread, name⟩ with
    | none =>
      simp only [after, hrun, Option.map_none, Option.getD_none]
      exact .refl
    | some p =>
      simp only [after, hrun, Option.map_some, Option.getD_some]
      exact hany (moves_escalate hs hrun)
  | relax name =>
    cases hrun : s.relax ⟨who.thread, name⟩ with
    | none =>
      simp only [after, hrun, Option.map_none, Option.getD_none]
      exact .refl
    | some p =>
      simp only [after, hrun, Option.map_some, Option.getD_some]
      exact hany (moves_relax hs hrun)
  | close name => exact hany (moves_close [] hs.guarded _)

/-- An operation but a restore makes nothing but moves. -/
theorem moves_after {s : Session} (hs : s.Sound agree) (hv : s.store.labels.relationships.Valid)
    (who : Caller) (op : Operation) (hlive : op.Live) :
    Moves (op.Dooms s) True s.scene (op.after who s).scene := by
  by_cases harcs : op.writesArcs = false
  · exact (moves_arcless hs who harcs).mono (fun _ h => h) False.elim
  cases op with
  | ask r =>
    exact (moves_perform hs ⟨hv, fun _ h => h⟩ (steady_request r hlive)).mono (fun _ h => h)
      fun _ => trivial
  | _ => exact absurd rfl harcs

end Operation

end Arcbase
