import Arcbase.Proofs.Session.Handles
set_option autoImplicit false

/-!
# Reachable sessions

A session is reachable if it comes from an empty graph by operations of its threads, one
after the other, in any order.  Graphs that share label tables may add labels in between.

Every operation but a restore makes steps of the store and writes only what its thread
has to itself (`Operation.steps_after`); every operation leaves the session in order
(`Reach.sound`).
-/

namespace Arcbase

open Arcbase.Action Store

/-- One thing that a thread may do. -/
inductive Operation : Type 1 where
  | ask {α : Type} (r : Request α)
  | openVertex (name id : String) (mode : OpenMode)
  | openVertices (names ids : List String) (mode : OpenMode)
  | askHandle {α : Type} (name : String) (r : HandleRequest α)
  | escalate (name : String)
  | relax (name : String)
  | close (name : String)

namespace Operation

/-- The session after an operation; one through a handle that is not open does nothing. -/
def after (who : Caller) : Operation → Session → Session
  | ask r, s => (s.ask who r).2
  | openVertex name id mode, s => (s.openVertex who name id mode).2
  | openVertices names ids mode, s => (s.openVertices who names ids mode).2
  | askHandle name r, s => ((s.askHandle who name r).map Prod.snd).getD s
  | escalate name, s => ((s.escalate ⟨who.thread, name⟩).map Prod.snd).getD s
  | relax name, s => ((s.relax ⟨who.thread, name⟩).map Prod.snd).getD s
  | close name, s => s.close ⟨who.thread, name⟩

/-- All operations but a restore: those of a graph in use. -/
def Live : Operation → Prop
  | ask r => r.isRestore = false
  | _ => True

end Operation

/-- The sessions that come from an empty graph by operations of a given sort. -/
inductive Reach (ok : Operation → Prop) : Session → Prop where
  | start (config : Config) (labels : Labels) : Reach ok (.new config labels)
  | step {s : Session} (before : Reach ok s) (who : Caller) (op : Operation) (allowed : ok op) :
      Reach ok (op.after who s)
  | relabel {s : Session} (before : Reach ok s) (labels : Labels) :
      Reach ok { s with store := { s.store with labels } }

variable {agree : Agreement} {W : CellId → Prop} {s : Session} {who : Caller}

namespace Session

theorem sound_new (config : Config) (labels : Labels) : (new config labels).Sound agree :=
  ⟨Store.sound_new config labels, guarded_new config labels, fun _ g hg =>
    (Option.some_ne_none g hg.symm).elim⟩

theorem Sound.held (hs : s.Sound agree) (hW : Covers W who.thread s.guards) :
    s.Held agree W who.thread [] :=
  Held.of_guarded hs.store hs.guarded hs.owner (fun _ hg => absurd hg List.not_mem_nil) hW
    fun _ hg => hg

/-- An orderly action leaves a session in order. -/
theorem steps_perform {α : Type} {a : Action α} (hs : s.Sound agree)
    (ha : Orderly agree W s.guards (fun _ => True) a fun _ _ => True) :
    Steps W s.store (s.perform a).2.store ∧ (s.perform a).2.Sound agree := by
  cases hrun : a.run s.store with
  | mk r store =>
    obtain ⟨st, hr⟩ := ha s.store r store hs.store hs.guarded trivial hrun
    have hg : store.Guarded s.guards := by
      cases r with
      | error e => exact hr
      | ok x => exact hr.1
    simp only [perform, hrun]
    exact ⟨st, Steps.sound st hs.store, hg, hs.owner⟩

end Session

namespace Operation

open Session

theorem steps_openVertex (hs : s.Sound agree) (hW : Covers W who.thread s.guards)
    (name id : String) (mode : OpenMode) :
    Steps W s.store (s.openVertex who name id mode).2.store ∧
      (s.openVertex who name id mode).2.Sound agree := by
  cases hrun : (Action.openVertex who id mode).run s.store with
  | mk r store =>
    obtain ⟨st, hr⟩ := turns_openVertex hW id mode s.store r store hs.store hs.guarded trivial hrun
    cases r with
    | error e =>
      simp only [Session.openVertex, perform, hrun]
      exact ⟨st, Steps.sound st hs.store, hr, hs.owner⟩
    | ok g =>
      simp only [Session.openVertex, perform, hrun]
      have hheld : ({ s with store } : Session).Held agree W who.thread [g] :=
        Held.of_guarded (Steps.sound st hs.store) hr.1 hs.owner
          (fun g' hm => List.mem_singleton.1 hm ▸ hr.2) hW fun _ hm => List.mem_cons_of_mem g hm
      obtain ⟨st', hkept⟩ := steps_keep hheld ⟨who.thread, name⟩ rfl
      exact ⟨st.trans st', hkept.sound⟩

theorem steps_openVertices (hs : s.Sound agree) (hW : Covers W who.thread s.guards)
    (names ids : List String) (mode : OpenMode) :
    Steps W s.store (s.openVertices who names ids mode).2.store ∧
      (s.openVertices who names ids mode).2.Sound agree := by
  cases hrun : (Action.openVertices who ids mode).run s.store with
  | mk r store =>
    obtain ⟨st, hr⟩ := turns_openVertices hW ids mode s.store r store hs.store hs.guarded trivial
      hrun
    cases r with
    | error e =>
      simp only [Session.openVertices, perform, hrun]
      exact ⟨st, Steps.sound st hs.store, hr, hs.owner⟩
    | ok new =>
      simp only [Session.openVertices, perform, hrun]
      have hheld : ({ s with store } : Session).Held agree W who.thread new :=
        Held.of_guarded (Steps.sound st hs.store) hr.1 hs.owner hr.2.thread hW
          fun _ hm => List.mem_append_right new hm
      obtain ⟨st', hkept⟩ := steps_keepAll hheld names
      exact ⟨st.trans st', hkept.sound⟩

/-- A handle that its thread may write through may change its access. -/
theorem steps_escalate (hs : s.Sound agree) {name : GuardName} {g : Guard}
    (hg : s.handle? name = some g) {r : Except Error LockMode} {s' : Session}
    (hrun : s.escalate name = some (r, s')) :
    Steps W s.store s'.store ∧ s'.Sound agree := by
  have hperm := guards_perm_of_handle? hg
  cases hrun' : (Action.escalate g).run s.store with
  | mk outcome store =>
    obtain ⟨st, hr⟩ := turns_escalate s.store outcome store hs.store (hs.guarded.perm hperm)
      trivial hrun'
    simp only [Session.escalate, hg, Option.map_some, perform, hrun'] at hrun
    cases outcome with
    | error e =>
      cases hrun
      exact ⟨st, Steps.sound st hs.store, hr.perm hperm.symm, hs.owner⟩
    | ok g' =>
      cases hrun
      refine ⟨st, Steps.sound st hs.store, ?_, ?_⟩
      · exact hr.1.perm (AssocMap.values_insert_perm s.handles name g').symm
      · exact owner_insert hs.owner (hr.2.trans (hs.owner name g hg))

theorem steps_relax (hs : s.Sound agree) {name : GuardName} {g : Guard}
    (hg : s.handle? name = some g) (hW : g.hold = .writer → W g.item.slot)
    {r : Except Error (Option HandleView)} {s' : Session} (hrun : s.relax name = some (r, s')) :
    Steps W s.store s'.store ∧ s'.Sound agree := by
  have hperm := guards_perm_of_handle? hg
  cases hrun' : (Action.relax g).run s.store with
  | mk outcome store =>
    obtain ⟨st, hr⟩ := turns_relax hW s.store outcome store hs.store (hs.guarded.perm hperm)
      trivial hrun'
    simp only [Session.relax, hg, Option.map_some, perform, hrun'] at hrun
    cases outcome with
    | error e =>
      cases hrun
      exact ⟨st, Steps.sound st hs.store, hr, owner_erase hs.owner name⟩
    | ok relaxed =>
      cases relaxed with
      | none =>
        cases hrun
        exact ⟨st, Steps.sound st hs.store, hr.1, owner_erase hs.owner name⟩
      | some g' =>
        cases hrun
        refine ⟨st, Steps.sound st hs.store, ?_, ?_⟩
        · exact hr.1.perm (AssocMap.values_insert_perm s.handles name g').symm
        · exact owner_insert hs.owner ((hr.2 g' rfl).trans (hs.owner name g hg))

/-- An operation writes only what its thread has to itself, and leaves the session in
order. -/
theorem steps_after (hs : s.Sound agree) (hW : Covers W who.thread s.guards) (op : Operation)
    (hlive : op.Live) :
    Steps W s.store (op.after who s).store ∧ (op.after who s).Sound agree := by
  have hown : ∀ name g, name.thread = who.thread → s.handle? name = some g →
      g.hold = .writer → W g.item.slot := fun name g hname hg =>
    (hs.held hW).owned g (mem_guards_of_handle? hg) ((hs.owner name g hg).trans hname)
  cases op with
  | ask r => exact steps_perform hs (orderly_request hW r hlive)
  | openVertex name id mode => exact steps_openVertex hs hW name id mode
  | openVertices names ids mode => exact steps_openVertices hs hW names ids mode
  | askHandle name r =>
    cases hg : s.handle? ⟨who.thread, name⟩ with
    | none =>
      simp only [after, Session.askHandle, hg, Option.map_none, Option.getD_none]
      exact ⟨.refl, hs⟩
    | some g =>
      simp only [after, Session.askHandle, hg, Option.map_some, Option.getD_some]
      exact steps_perform hs (orderly_handleRequest (hown _ g rfl hg) r)
  | escalate name =>
    cases hrun : s.escalate ⟨who.thread, name⟩ with
    | none =>
      simp only [after, hrun, Option.map_none, Option.getD_none]
      exact ⟨.refl, hs⟩
    | some p =>
      simp only [after, hrun, Option.map_some, Option.getD_some]
      obtain ⟨g, hg, _⟩ := Option.map_eq_some_iff.1 hrun
      exact steps_escalate hs hg hrun
  | relax name =>
    cases hrun : s.relax ⟨who.thread, name⟩ with
    | none =>
      simp only [after, hrun, Option.map_none, Option.getD_none]
      exact ⟨.refl, hs⟩
    | some p =>
      simp only [after, hrun, Option.map_some, Option.getD_some]
      obtain ⟨g, hg, _⟩ := Option.map_eq_some_iff.1 hrun
      exact steps_relax hs hg (hown _ g rfl hg) hrun
  | close name =>
    obtain ⟨st, hclosed⟩ := steps_close (hs.held hW) ⟨who.thread, name⟩ rfl
    exact ⟨st, hclosed.sound⟩

end Operation

/-! ## Every reachable session is in order -/

theorem sound_relabel (hs : s.Sound agree) (labels : Labels) :
    ({ s with store := { s.store with labels } } : Session).Sound agree :=
  ⟨hs.store.withLabels labels, ⟨hs.guarded.accounts, hs.guarded.item⟩, hs.owner⟩

theorem covers_open (u : Thread) (G : List Guard) : Covers (Guard.Open G u) u G := fun _ h => h

/-- Without restores, both sides of every arc hold the same. -/
theorem Reach.sound_live (h : Reach Operation.Live s) : s.Sound .equal := by
  induction h with
  | start config labels => exact Session.sound_new config labels
  | step _ who op allowed ih => exact (op.steps_after ih (covers_open _ _) allowed).2
  | relabel _ labels ih => exact sound_relabel ih labels

/-- Restores too leave a session in order, but both sides of an arc agree slot by slot
only. -/
theorem Operation.sound_after (hs : s.Sound .slots) (who : Caller) (op : Operation) :
    (op.after who s).Sound .slots := by
  by_cases hlive : op.Live
  · exact (op.steps_after hs (covers_open _ _) hlive).2
  · cases op with
    | ask r =>
      cases r with
      | restore snapshot =>
        obtain ⟨hsound, hextends, hlocks⟩ := sound_restore snapshot rfl hs.store
        refine ⟨hsound, ?_, hs.owner⟩
        exact hs.guarded.transfer hextends (hlocks ▸ hs.guarded.accounts) fun _ hm => hm
      | _ => exact absurd rfl hlive
    | _ => exact absurd trivial hlive

/-- After restores too, both sides of every arc agree slot by slot. -/
theorem Reach.sound {ok : Operation → Prop} (h : Reach ok s) : s.Sound .slots := by
  induction h with
  | start config labels => exact Session.sound_new config labels
  | step _ who op _ ih => exact op.sound_after ih who
  | relabel _ labels ih => exact sound_relabel ih labels

end Arcbase
