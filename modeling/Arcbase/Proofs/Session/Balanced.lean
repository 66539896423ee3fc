import Arcbase.Proofs.Action.Balanced
import Arcbase.Proofs.Session.Reach
import Mathlib
set_option autoImplicit false

/-!
# No lock is leaked

A request takes and gives up any number of guards, on vertices that it finds out on its
way, and may fail at every one of them.  However it ends, its locks are then as they were
before (`balanced_request`), and a request that only reads leaves the rest of the graph
alone too (`quiet_request`).

Whatever the threads do, the number of written vertices stays right (`Reach.tallied`): that
is what balance rests on, beside the account of the guards.
-/

namespace Arcbase

open Arcbase.Action Store LockTable

variable {who : Caller}

/-! ## Requests -/

/-- Whether a request only moves the read-only flag. -/
def Request.isFlagging {α : Type} : Request α → Bool
  | .setReadonly | .clearReadonly => true
  | _ => false

/-- Whether a request only looks at the graph. -/
def Request.isReading {α : Type} : Request α → Bool
  | .contains _ | .info _ | .arcValue .. | .adjacent .. | .degree .. | .neighborhood _
  | .aggregate _ | .terminals .. | .initials .. | .outarcs .. | .inarcs .. | .snapshot => true
  | _ => false

theorem balanced_request (who : Caller) {α : Type} (r : Request α) (hr : r.isFlagging = false) :
    Balanced (r.action who) := by
  cases r with
  | create id type => exact balanced_create id type
  | delete id => exact balanced_delete id
  | contains id => exact balanced_read _
  | info id => exact balanced_vertexInfo id
  | connect r => exact balanced_connect r
  | disconnect anchor probe neighbor => exact balanced_disconnect anchor probe neighbor
  | count initial relationship terminal delta =>
    exact .bind (balanced_addTo _ _ _ _ _) fun _ => balanced_pure _
  | accumulate initial relationship terminal delta =>
    exact .bind (balanced_addTo _ _ _ _ _) fun _ => balanced_pure _
  | addTo initial relationship terminal kind delta => exact balanced_addTo _ _ _ _ _
  | arcValue initial probe terminal => exact balanced_arcValue initial probe terminal
  | adjacent anchor probe neighbor => exact balanced_adjacent anchor probe neighbor
  | degree anchor probe => exact balanced_degree anchor probe
  | neighborhood q => exact balanced_neighborhood q
  | aggregate q => exact balanced_aggregate q
  | terminals anchor relationship timeout =>
    exact .bind (balanced_neighborhood _) fun _ => balanced_pure _
  | initials anchor relationship timeout =>
    exact .bind (balanced_neighborhood _) fun _ => balanced_pure _
  | outarcs anchor timeout => exact .bind (balanced_neighborhood _) fun _ => balanced_pure _
  | inarcs anchor timeout => exact .bind (balanced_neighborhood _) fun _ => balanced_pure _
  | setReadonly => cases hr
  | clearReadonly => cases hr
  | markExpiring id time => exact balanced_markExpiring id time
  | markArcExpiring initial relationship terminal time =>
    exact balanced_markArcExpiring initial relationship terminal time
  | runExpiration time => exact balanced_runExpiration time
  | snapshot => exact balanced_snapshot
  | restore s => exact balanced_restore s

theorem quiet_request {agree : Agreement} {G : List Guard} (who : Caller) {α : Type} (r : Request α)
    (hr : r.isReading = true) :
    Quiet agree G (fun _ => True) (r.action who) fun _ _ => True := by
  cases r with
  | contains id => exact quiet_read_any
  | info id => exact quiet_vertexInfo id
  | arcValue initial probe terminal => exact quiet_arcValue initial probe terminal
  | adjacent anchor probe neighbor => exact quiet_adjacent anchor probe neighbor
  | degree anchor probe => exact quiet_degree anchor probe
  | neighborhood q => exact quiet_neighborhood q
  | aggregate q => exact quiet_aggregate q
  | terminals anchor relationship timeout => exact quiet_ofNeighborhood _ _
  | initials anchor relationship timeout => exact quiet_ofNeighborhood _ _
  | outarcs anchor timeout => exact quiet_ofNeighborhood _ _
  | inarcs anchor timeout => exact quiet_ofNeighborhood _ _
  | snapshot => exact quiet_snapshot
  | _ => cases hr

theorem balanced_handleRequest {α : Type} (g : Guard) (r : HandleRequest α) :
    Balanced (r.action who g) := by
  cases r with
  | view => exact balanced_read _
  | setProperty name value =>
    exact .bind (balanced_requireWritable g) fun _ => balanced_modifyData _ _
  | removeProperty name =>
    refine .bind (balanced_requireWritable g) fun _ => .bind (balanced_read _) fun old => ?_
    dsimp only
    split
    · exact .bind (balanced_modifyData _ _) fun _ => balanced_pure _
    · exact balanced_pure _
  | setVector vector =>
    refine .bind (balanced_requireWritable g) fun _ => ?_
    split
    · exact balanced_modifyData _ _
    · exact balanced_fail _
  | setExpiration time => exact balanced_setExpiration g time

/-! ## The number of written vertices -/

namespace Action

variable {α β : Type} {a : Action α} {H L : List Guard} {K : α → List Guard}

/-- The action, run with the guards `H` among those that are held, keeps the number of
written vertices right. -/
def Tallies (H : List Guard) (a : Action α) : Prop :=
  ∀ G s, s.locks.Accounts (H ++ G) → s.locks.Tallied → (a.run s).2.locks.Tallied

theorem Balances.tallies (h : Balances H a K L) : Tallies H a := fun G s hacc ht =>
  (h G s _ _ hacc ht rfl).tallied

theorem Balances.tallies_bind {f : α → Action β} (ha : Balances H a K L)
    (hf : ∀ x, Tallies (K x) (f x)) : Tallies H (a >>= f) := by
  intro G s hacc ht
  rw [run_bind]
  cases hrun : a.run s with
  | mk r s₁ =>
    have h₁ := ha G s r s₁ hacc ht hrun
    cases r with
    | error e => exact h₁.tallied
    | ok x => exact hf x G s₁ h₁.accounts h₁.tallied

theorem balances_openVertex (id : String) (mode : OpenMode) :
    Balances [] (openVertex who id mode) (fun g => [g]) [] := by
  -- a vertex that is opened for writing becomes real while its guard is held
  have hpromote : ∀ (c : CellId) (g : Guard), Balances [g] (do
      update (·.modifyData c (·.promote who.now))
      return g) (fun g => [g]) [] := by
    intro c g G s r s' hacc ht hrun
    cases hrun
    exact .refl hacc ht
  cases mode with
  | readonly => exact balances_acquireExisting id .readonly
  | append =>
    exact .bind balanced_checkWritable fun _ => .bind (balances_acquireExisting id .writable)
      fun g => hpromote _ g
  | write =>
    exact .bind balanced_checkWritable fun _ => .bind (balanced_findOrAdd id .real) fun found =>
      .bind (balances_acquire found.1 .writable) fun g => hpromote _ g

theorem balanced_cellsToOpen (ids : List String) (mode : OpenMode) :
    Balanced (cellsToOpen who ids mode) := by
  refine balanced_mapM (fun id => ?_) ids
  cases mode with
  | write => exact .bind (balanced_findOrAdd id .real) fun _ => balanced_pure _
  | readonly => exact balanced_find id
  | append => exact balanced_find id

theorem tallies_openAll (ids : List String) (mode : OpenMode) (lockMode : LockMode) :
    Tallies [] (openAll who ids mode lockMode) := by
  refine (balanced_cellsToOpen ids mode).tallies_bind fun cells =>
    (balances_acquireMany cells lockMode).tallies_bind fun new => ?_
  have hpromote : Balanced (cells.forM fun c =>
      if lockMode = .writable then update (·.modifyData c (·.promote who.now))
      else pure () : Action Unit) := by
    refine balanced_forM (fun c => ?_) cells
    split
    · exact balanced_modifyData c _
    · exact balanced_pure ()
  exact (hpromote.frame new).tallies_bind fun _ _ _ _ ht => ht

theorem tallies_openVertices (who : Caller) (ids : List String) (mode : OpenMode) :
    Tallies [] (openVertices who ids mode) := by
  unfold openVertices
  split
  next => exact (balanced_fail _).tallies
  next =>
    cases mode with
    | readonly => exact tallies_openAll ids .readonly .readonly
    | append =>
      exact balanced_checkWritable.tallies_bind fun _ => tallies_openAll ids .append .writable
    | write =>
      exact balanced_checkWritable.tallies_bind fun _ => tallies_openAll ids .write .writable

theorem tallies_escalate (g : Guard) : Tallies [g] (escalate g) := by
  intro G s hacc ht
  simp only [escalate, run_ofFun]
  cases he : s.locks.escalate g with
  | error e => exact ht
  | ok p => exact tallied_escalate ht hacc he

theorem tallies_relax (g : Guard) : Tallies [g] (relax g) := by
  have hcollect : Balanced (update fun s =>
      if g.isWritable && s.locks.isOutermost g then s.collectOrphan g.item.slot else s) := by
    refine balanced_update fun s => ?_
    split
    · exact locks_collectOrphan s _
    · rfl
  refine (hcollect.frame [g]).tallies_bind fun _ G s hacc ht => ?_
  have hrelaxed := tallied_relax ht hacc
  simp only [run_bind, run_ofFun]
  cases hr : s.locks.relax g with
  | mk relaxed t =>
    rw [hr] at hrelaxed
    obtain ⟨_, hacc', _⟩ := accounts_relax hacc hr
    cases relaxed with
    | none => exact hrelaxed
    | some g' =>
      simp only [run_bind, read, run_ofFun]
      split
      · have hdrop := locks_drop { s with locks := t } g'
        exact hdrop ▸ tallied_release hrelaxed hacc'
      · exact hrelaxed

end Action

namespace Session

variable {agree : Agreement} {s : Session} {new : List Guard}

theorem tallied_close (hacc : s.store.locks.Accounts (new ++ s.guards))
    (ht : s.store.locks.Tallied) (name : GuardName) :
    (s.close name).store.locks.Tallied ∧
      (s.close name).store.locks.Accounts (new ++ (s.close name).guards) := by
  unfold close
  cases hold : s.handle? name with
  | none => exact ⟨ht, hacc⟩
  | some g =>
    have hperm : (new ++ s.guards).Perm (g :: (new ++ (s.handles.erase name).values)) :=
      ((guards_perm_of_handle? hold).append_left new).trans List.perm_middle
    have hdrop : (s.store.drop g).locks = s.store.locks.release g := locks_drop s.store g
    refine ⟨?_, ?_⟩
    · exact hdrop ▸ tallied_release ht (hacc.perm hperm)
    · exact hdrop ▸ accounts_release (hacc.perm hperm)

theorem tallied_keepAll (hacc : s.store.locks.Accounts (new ++ s.guards))
    (ht : s.store.locks.Tallied) (u : Thread) (names : List String) :
    (s.keepAll u names new).store.locks.Tallied := by
  induction new generalizing s names with
  | nil => cases names <;> exact ht
  | cons g rest ih =>
    cases names with
    | nil =>
      have hdrop : (s.store.drop g).locks = s.store.locks.release g := locks_drop s.store g
      refine ih (s := { s with store := s.store.drop g }) ?_ ?_ []
      · exact hdrop ▸ accounts_release hacc
      · exact hdrop ▸ tallied_release ht hacc
    | cons name names =>
      obtain ⟨hclosed, hacc'⟩ := tallied_close hacc ht ⟨u, name⟩
      exact ih (s := s.keep ⟨u, name⟩ g) (hacc'.perm (perm_keep s ⟨u, name⟩ g rest)) hclosed names

end Session

namespace Operation

variable {s : Session}

theorem tallied_after (hs : s.Sound .slots) (ht : s.store.locks.Tallied) (who : Caller)
    (op : Operation) : (op.after who s).store.locks.Tallied := by
  have hacc := hs.guarded.accounts
  cases op with
  | ask r =>
    cases hr : r.isFlagging with
    | false => exact (balanced_request who r hr).tallies s.guards s.store hacc ht
    | true =>
      cases r with
      | setReadonly => exact tallied_setReadonly ht _
      | clearReadonly => exact tallied_clearReadonly ht
      | _ => cases hr
  | openVertex name id mode =>
    cases hrun : (Action.openVertex who id mode).run s.store with
    | mk r store =>
      have hopened := balances_openVertex id mode s.guards s.store r store hacc ht hrun
      simp only [after, Session.openVertex, Session.perform, hrun]
      cases r with
      | error e => exact hopened.tallied
      | ok g =>
        exact (Session.tallied_close (s := { s with store }) hopened.accounts hopened.tallied
          ⟨who.thread, name⟩).1
  | openVertices names ids mode =>
    cases hrun : (Action.openVertices who ids mode).run s.store with
    | mk r store =>
      have htallied := tallies_openVertices who ids mode s.guards s.store hacc ht
      rw [hrun] at htallied
      obtain ⟨_, hr⟩ := turns_openVertices (covers_open who.thread s.guards) ids mode s.store r
        store hs.store hs.guarded trivial hrun
      simp only [after, Session.openVertices, Session.perform, hrun]
      cases r with
      | error e => exact htallied
      | ok new =>
        exact Session.tallied_keepAll (s := { s with store }) hr.1.accounts htallied who.thread
          names
  | askHandle name r =>
    cases hg : s.handle? ⟨who.thread, name⟩ with
    | none =>
      simp only [after, Session.askHandle, hg, Option.map_none, Option.getD_none]
      exact ht
    | some g =>
      simp only [after, Session.askHandle, hg, Option.map_some, Option.getD_some]
      exact (balanced_handleRequest g r).tallies s.guards s.store hacc ht
  | escalate name =>
    cases hg : s.handle? ⟨who.thread, name⟩ with
    | none =>
      simp only [after, Session.escalate, hg, Option.map_none, Option.getD_none]
      exact ht
    | some g =>
      have hacc' := hacc.perm (Session.guards_perm_of_handle? hg)
      have htallied := tallies_escalate g _ s.store hacc' ht
      cases hrun : (Action.escalate g).run s.store with
      | mk r store =>
        rw [hrun] at htallied
        simp only [after, Session.escalate, hg, Option.map_some, Option.getD_some,
          Session.perform, hrun]
        cases r <;> exact htallied
  | relax name =>
    cases hg : s.handle? ⟨who.thread, name⟩ with
    | none =>
      simp only [after, Session.relax, hg, Option.map_none, Option.getD_none]
      exact ht
    | some g =>
      have hacc' := hacc.perm (Session.guards_perm_of_handle? hg)
      have htallied := tallies_relax g _ s.store hacc' ht
      cases hrun : (Action.relax g).run s.store with
      | mk r store =>
        rw [hrun] at htallied
        simp only [after, Session.relax, hg, Option.map_some, Option.getD_some,
          Session.perform, hrun]
        cases r with
        | error e => exact htallied
        | ok relaxed => cases relaxed <;> exact htallied
  | close name =>
    have hnone : s.store.locks.Accounts ([] ++ s.guards) := hacc
    exact (Session.tallied_close hnone ht ⟨who.thread, name⟩).1

end Operation

theorem Reach.tallied {ok : Operation → Prop} {s : Session} (h : Reach ok s) :
    s.store.locks.Tallied := by
  induction h with
  | start config labels => exact tallied_new _ _
  | step before who op _ ih => exact op.tallied_after before.sound ih who
  | relabel _ _ ih => exact ih

/-! ## What a request leaves behind -/

/-- The session `s'` has the handles and the locks of `s`: the record of every vertex, in the
graph or not, and the number of written vertices. -/
structure Session.SameLocks (s s' : Session) : Prop where
  handles : s'.handles = s.handles
  record : ∀ c, s'.store.locks.record c = s.store.locks.record c
  writers : s'.store.locks.writers = s.store.locks.writers

/-- No request leaks a lock, on whichever way it ends, and one that reads changes nothing but
the locks on its way. -/
theorem sameLocks_ask {ok : Operation → Prop} {s : Session} (h : Reach ok s) (who : Caller)
    {α : Type} (r : Request α) :
    s.SameLocks (s.ask who r).2 ∧
      (r.isReading = true → (s.ask who r).2.store =
        { s.store with locks := (s.ask who r).2.store.locks }) := by
  have hs := h.sound
  refine ⟨?_, fun hr =>
    (quiet_request who r hr s.store _ _ hs.store hs.guarded trivial rfl).1⟩
  cases hr : r.isFlagging with
  | false =>
    have hbalance :=
      balanced_request who r hr s.guards s.store _ _ hs.guarded.accounts h.tallied rfl
    rw [left_const] at hbalance
    have hmatches : s.store.locks.Matches (s.ask who r).2.store.locks := hbalance.returned
    exact ⟨rfl, hmatches.record, hmatches.writers⟩
  | true =>
    cases r with
    | clearReadonly => exact ⟨rfl, fun _ => rfl, rfl⟩
    | setReadonly =>
      have hlocks : (s.ask who .setReadonly).2.store.locks =
          (s.store.locks.setReadonly s.store.config.name).2 := rfl
      rw [LockTable.setReadonly] at hlocks
      split at hlocks
      · exact ⟨rfl, fun c => by rw [hlocks]; rfl, by rw [hlocks]⟩
      · exact ⟨rfl, fun c => by rw [hlocks]; rfl, by rw [hlocks]⟩
    | _ => cases hr

/-- A vertex with a neighbor that another thread writes. -/
def besieged : Session :=
  (Operation.openVertex "h" "b" .append).after ⟨⟨"t"⟩, 6⟩
    ((Operation.ask (.connect
      { initial := "a", arc := { relationship := "r" }, terminals := .one "b" })).after
        ⟨⟨"m"⟩, 5⟩ (.new {} .new))

theorem reach_besieged : Reach Operation.Live besieged := by
  have hempty : Reach Operation.Live (.new {} .new) := .start {} .new
  have hconnected := hempty.step ⟨⟨"m"⟩, 5⟩ (.ask (.connect
    { initial := "a", arc := { relationship := "r" }, terminals := .one "b" })) rfl
  exact hconnected.step ⟨⟨"t"⟩, 6⟩ (.openVertex "h" "b" .append) trivial

/-- A walk that is turned away at the neighbor gives the vertex itself back. -/
theorem sameLocks_ask_besieged :
    let after := besieged.ask ⟨⟨"m"⟩, 7⟩ (.neighborhood (.oneLevel "a" .any none))
    after.1.map (·.total) = .error (.access (.timeout "b" .readonly)) ∧
      besieged.SameLocks after.2 ∧
        after.2.store = { besieged.store with locks := after.2.store.locks } := by
  have hfails : (besieged.ask ⟨⟨"m"⟩, 7⟩ (.neighborhood (.oneLevel "a" .any none))).1.map
      (·.total) = .error (.access (.timeout "b" .readonly)) := by
    set_option maxRecDepth 10000 in
    cbv
  obtain ⟨hsame, hreading⟩ := sameLocks_ask reach_besieged ⟨⟨"m"⟩, 7⟩
    (.neighborhood (.oneLevel "a" .any none))
  exact ⟨hfails, hsame, hreading rfl⟩

end Arcbase
