import Arcbase.Proofs.Action.Retracting
import Arcbase.Proofs.Session.Reach
import Mathlib
set_option autoImplicit false

/-!
# Errors after which a call may be retried

After an error of access the graph is as it was, but for vertices that were missing and
that the call has registered before it held any: the initial of a connect, and all
vertices that are opened for writing together (`Operation.creates`).  A connect takes the
virtual terminal out again that it has registered; these it leaves.
-/

namespace Arcbase

open Arcbase.Action Store

variable {agree : Agreement} {G : List Guard} {who : Caller} {checked : Prop}

/-- The vertices that a request registers before it holds any, where they are missing. -/
def Request.creates {α : Type} : Request α → List String
  | .connect r => [r.initial]
  | .count initial _ _ _ => [initial]
  | .accumulate initial _ _ _ => [initial]
  | .addTo initial _ _ _ _ => [initial]
  | _ => []

namespace Operation

/-- The same for all operations. -/
def creates : Operation → List String
  | ask r => r.creates
  | openVertices _ ids .write => ids
  | _ => []

/-- Whether an operation is to raise the read-only flag. -/
def setsReadonly : Operation → Bool
  | ask .setReadonly => true
  | _ => false

/-- Whether an operation of the graph, not one of a handle, fails with an error. -/
def Fails (who : Caller) (s : Session) (e : Error) : Operation → Prop
  | ask r => (s.ask who r).1 = .error e
  | openVertex name id mode => (s.openVertex who name id mode).1 = .error e
  | openVertices names ids mode => (s.openVertices who names ids mode).1 = .error e
  | _ => False

end Operation

namespace Action

theorem careful_restore (snapshot : Snapshot) :
    Careful agree G who checked [] (restore snapshot) := by
  intro s e s' _ _ _ hrun _
  rcases run_restore hrun with ⟨_, _, hsame⟩ | ⟨hok, _⟩
  · rw [fresh_nil, hsame]
    exact grown_labels s _
  · cases hok

end Action

/-- All requests are careful, but the one that may take down the read-only flag. -/
theorem careful_request {α : Type} (r : Request α)
    (hr : (Operation.ask r).setsReadonly = false) :
    Careful agree G who checked r.creates (r.action who) := by
  cases r with
  | create id type => exact careful_create id type
  | delete id => exact careful_delete id
  | contains id => exact (avoids_read _).careful
  | info id => exact (quiet_vertexInfo id).careful
  | connect r => exact careful_connect r
  | disconnect anchor probe neighbor => exact careful_disconnect anchor probe neighbor
  | count initial relationship terminal delta => exact careful_count _ _ _ _
  | accumulate initial relationship terminal delta => exact careful_accumulate _ _ _ _
  | addTo initial relationship terminal kind delta => exact careful_addTo _ _ _ _ _
  | arcValue initial probe terminal => exact (quiet_arcValue initial probe terminal).careful
  | adjacent anchor probe neighbor => exact (quiet_adjacent anchor probe neighbor).careful
  | degree anchor probe => exact (quiet_degree anchor probe).careful
  | neighborhood q => exact (quiet_neighborhood q).careful
  | aggregate q => exact (quiet_aggregate q).careful
  | terminals anchor relationship timeout => exact (quiet_ofNeighborhood _ _).careful
  | initials anchor relationship timeout => exact (quiet_ofNeighborhood _ _).careful
  | outarcs anchor timeout => exact (quiet_ofNeighborhood _ _).careful
  | inarcs anchor timeout => exact (quiet_ofNeighborhood _ _).careful
  | setReadonly => cases hr
  | clearReadonly => exact (avoids_update _).careful
  | markExpiring id time => exact careful_markExpiring id time
  | markArcExpiring initial relationship terminal time =>
    exact careful_markArcExpiring initial relationship terminal time
  | runExpiration time => exact careful_runExpiration time
  | snapshot => exact quiet_snapshot.careful
  | restore s => exact careful_restore s

variable {s : Session} {op : Operation} {e : Error}

/-- A failure has registered what is to be created, and no handle. -/
theorem Operation.Fails.grown (h : op.Fails who s e) (hs : s.Sound agree)
    (hop : op.setsReadonly = false) (hsafe : e.isRetrySafe = true) :
    Grown (s.store.fresh who op.creates) s.store (op.after who s).store ∧
      (op.after who s).handles = s.handles := by
  cases op with
  | ask r =>
    cases hrun : (r.action who).run s.store with
    | mk result store =>
      have hcareful : Careful agree s.guards who False r.creates (r.action who) :=
        careful_request r hop
      simp only [Fails, after, Session.ask, Session.perform, hrun, and_true] at h ⊢
      subst h
      exact hcareful s.store e store hs.store hs.guarded False.elim hrun hsafe
  | openVertex name id mode =>
    cases hrun : (Action.openVertex who id mode).run s.store with
    | mk result store =>
      have hcareful : Careful agree s.guards who False [] (Action.openVertex who id mode) :=
        careful_openVertex id mode
      simp only [Fails, after, Session.openVertex, Session.perform, hrun] at h ⊢
      cases result with
      | ok g => cases h
      | error e₁ =>
        cases h
        exact ⟨hcareful s.store e store hs.store hs.guarded False.elim hrun hsafe, rfl⟩
  | openVertices names ids mode =>
    cases hrun : (Action.openVertices who ids mode).run s.store with
    | mk result store =>
      have hcareful : Careful agree s.guards who False (openVertices names ids mode).creates
          (Action.openVertices who ids mode) := by
        have hopened : Careful agree s.guards who False (if mode = .write then ids else [])
            (Action.openVertices who ids mode) := careful_openVertices ids mode
        cases mode with
        | write => exact hopened
        | readonly => exact hopened
        | append => exact hopened
      simp only [Fails, after, Session.openVertices, Session.perform, hrun] at h ⊢
      cases result with
      | ok guards => cases h
      | error e₁ =>
        cases h
        exact ⟨hcareful s.store e store hs.store hs.guarded False.elim hrun hsafe, rfl⟩
  | _ => exact h.elim

/-- The guards that are open, and so the records of the locks, are as before. -/
theorem Session.Sound.sameRecords {s' : Session} {agree' : Agreement} (hs : s.Sound agree)
    (hs' : s'.Sound agree') (hhandles : s'.handles = s.handles)
    (hsettings : s.store.locks.SameSettings s'.store.locks) (slot : Nat) :
    (s.store.locks.record slot).Same (s'.store.locks.record slot) := by
  have hafter := hs'.guarded.accounts.record slot
  rw [hsettings.limit, Session.guards, hhandles] at hafter
  exact (hs.guarded.accounts.record slot).same hafter

/-- What an error leaves after which a call may be retried: bare vertices for what was to
be created, no arcs, no locks, and nothing else.  The graph is the same exactly if it was
readonly, or nothing was missing. -/
theorem grown_of_retrySafe {ok : Operation → Prop} (h : Reach ok s) (who : Caller)
    (op : Operation) (hop : op.setsReadonly = false) (hfails : op.Fails who s e)
    (hsafe : e.isRetrySafe = true) :
    Grown (s.store.fresh who op.creates) s.store (op.after who s).store ∧
      (op.after who s).handles = s.handles ∧
      (op.after who s).store.arcs = s.store.arcs ∧
      (∀ slot, (s.store.locks.record slot).Same ((op.after who s).store.locks.record slot)) ∧
      (s.store.SameGraph (op.after who s).store ↔
        s.store.locks.readonly = true ∨
          ∀ id ∈ op.creates, ∃ c, s.store.lookupKey (.of id) = some c) := by
  have hs := h.sound
  obtain ⟨hgrown, hhandles⟩ := hfails.grown hs hop hsafe
  have hrecords := hs.sameRecords (op.sound_after hs who) hhandles hgrown.settings
  refine ⟨hgrown, hhandles, ?_, hrecords, ?_⟩
  · exact hgrown.arcs hs.store.placed fun _ hm => bare_of_mem_fresh hm
  · rw [hgrown.sameGraph_iff hs.store.placed hrecords, fresh_eq_nil_iff]

/-- A vertex that another thread reads. -/
def terminalRead : Session :=
  (Operation.openVertex "h" "B" .readonly).after ⟨⟨"u"⟩, 5⟩
    ((Operation.ask (.create "B" none)).after ⟨⟨"m"⟩, 5⟩ (.new {} .new))

theorem reach_terminalRead : Reach (fun _ => True) terminalRead := by
  have hempty : Reach (fun _ => True) (.new {} .new) := .start {} .new
  have hcreated := hempty.step ⟨⟨"m"⟩, 5⟩ (.ask (.create "B" none)) trivial
  exact hcreated.step ⟨⟨"u"⟩, 5⟩ (.openVertex "h" "B" .readonly) trivial

/-- Connects a missing vertex to the one that is read. -/
def connectToRead : Operation :=
  .ask (.connect { initial := "A", arc := { relationship := "r" }, terminals := .one "B" })

theorem fails_connectToRead :
    connectToRead.Fails ⟨⟨"m"⟩, 6⟩ terminalRead (.access (.timeout "B" .writable)) := by
  change (terminalRead.ask _ _).1 = _
  set_option maxRecDepth 10000 in
  cbv

/-- The initial is left, bare. -/
theorem grown_of_retrySafe_terminalRead :
    connectToRead.Fails ⟨⟨"m"⟩, 6⟩ terminalRead (.access (.timeout "B" .writable)) ∧
      Grown [{ id := "A", key := .of "A", data := .new .real 6 }] terminalRead.store
        (connectToRead.after ⟨⟨"m"⟩, 6⟩ terminalRead).store := by
  have hgrown := (grown_of_retrySafe reach_terminalRead ⟨⟨"m"⟩, 6⟩ connectToRead
    rfl fails_connectToRead rfl).1
  have hfresh : terminalRead.store.fresh ⟨⟨"m"⟩, 6⟩ connectToRead.creates =
      [{ id := "A", key := .of "A", data := .new .real 6 }] := by
    set_option maxRecDepth 10000 in
    cbv
  exact ⟨fails_connectToRead, hfresh ▸ hgrown⟩

/-- A connect that may be retried has changed the graph. -/
theorem not_sameGraph_connectToRead :
    ¬ ∀ s : Session, Reach (fun _ => True) s → ∀ (who : Caller) (op : Operation) (e : Error),
      op.setsReadonly = false → op.Fails who s e → e.isRetrySafe = true →
        s.store.SameGraph (op.after who s).store := by
  intro hall
  have hsame := hall terminalRead reach_terminalRead ⟨⟨"m"⟩, 6⟩ connectToRead _
    rfl fails_connectToRead rfl
  have hbefore : terminalRead.store.order = 1 := by
    set_option maxRecDepth 10000 in
    cbv
  have hafter : (connectToRead.after ⟨⟨"m"⟩, 6⟩ terminalRead).store.order = 2 := by
    set_option maxRecDepth 10000 in
    cbv
  have horder := hsame.order
  rw [hbefore, hafter] at horder
  cases horder

end Arcbase
