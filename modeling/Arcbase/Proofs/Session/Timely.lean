import Arcbase.Proofs.Action.Dating
import Arcbase.Proofs.Action.Deletions
import Arcbase.Proofs.Action.Marking
import Arcbase.Proofs.Session.Reach
set_option autoImplicit false

/-!
# Graphs in use lose no expiration

An operation of a graph in use keeps the schedule complete (`Operation.lasting_after`).  It
changes when a vertex expires only if it sets that time, or if it deletes the vertex: which
vertices it deletes, and with what outcome, can be told from the store it meets
(`Operation.deletions`).
-/

namespace Arcbase

open Arcbase.Action Store

/-! ## What operations do with times -/

/-- The vertices that a request deletes one after the other, each with the outcome. -/
def Request.deletions {α : Type} (who : Caller) :
    Request α → Store → List (CellId × Except Error Nat)
  | .delete id, s => Action.deletion who s (.vertex id)
  | .runExpiration time, s =>
    if s.locks.readonly then []
    else Action.deletions who ((s.schedule.popDue time).1.map Prod.snd) (popped time s)
  | _, _ => []

/-- Whether a request sets the time at which a vertex expires. -/
def Request.SetsExpiration {α : Type} (who : Caller) (c : CellId) : Request α → Store → Prop
  | .markExpiring id time, s =>
    s.lookup id = some c ∧ ((Action.markExpiring who id time).run s).1 = .ok ()
  | _, _ => False

/-- Whether a request through a handle sets the time at which a vertex expires. -/
def HandleRequest.SetsExpiration {α : Type} (g : Guard) (c : CellId) : HandleRequest α → Prop
  | .setExpiration _ => g.isWritable = true ∧ g.item.slot = c
  | _ => False

namespace Operation

/-- The vertices that an operation deletes one after the other, each with the outcome. -/
def deletions (who : Caller) : Operation → Session → List (CellId × Except Error Nat)
  | ask r, s => r.deletions who s.store
  | _, _ => []

/-- Whether an operation sets the time at which a vertex expires. -/
def SetsExpiration (who : Caller) (c : CellId) : Operation → Session → Prop
  | ask r, s => r.SetsExpiration who c s.store
  | askHandle name r, s => ∃ g, s.handle? ⟨who.thread, name⟩ = some g ∧ r.SetsExpiration g c
  | _, _ => False

/-- An operation of a graph in use, which sets no time through the handle of a vertex that is
not in the graph any more. -/
def Fit (who : Caller) : Operation → Session → Prop
  | ask r, _ => r.isRestore = false
  | askHandle name r, s => ∀ g c, s.handle? ⟨who.thread, name⟩ = some g →
      r.SetsExpiration g c → s.store.Live c
  | _, _ => True

/-- An operation that leaves it as it was when a vertex expires. -/
def Spares (who : Caller) (op : Operation) (s : Session) (c : CellId) : Prop :=
  (∀ r, (c, r) ∈ op.deletions who s → Refused r) ∧ ¬ op.SetsExpiration who c s

theorem Fit.live {who : Caller} {op : Operation} {s : Session} (h : op.Fit who s) : op.Live := by
  cases op with
  | ask r => exact h
  | _ => exact trivial

end Operation

/-! ## Changes of stores -/

namespace Store

/-- No expiration is lost, and the vertices of a sort expire when they did. -/
structure Lasting (V : CellId → Prop) (s s' : Store) : Prop where
  timely : s'.Timely fun _ => none
  count : s.cells.size ≤ s'.cells.size
  expires : ∀ c, c < s.cells.size → V c → (s'.data c).expires = (s.data c).expires

variable {agree : Agreement} {V : CellId → Prop} {s s' s'' : Store}

theorem Kept.lasting (h : s.Kept s') (ht : s'.Timely fun _ => none) : Lasting V s s' :=
  ⟨ht, h.cells.count, fun c hc _ => h.expires c hc⟩

theorem lasting_locks {locks : LockTable} (ht : s.Timely fun _ => none) :
    Lasting V s { s with locks } :=
  ⟨ht.calm (calm_of_cells rfl rfl rfl), Nat.le_refl _, fun _ _ _ => rfl⟩

end Store

namespace Action

variable {α : Type} {agree : Agreement} {V : CellId → Prop} {G : List Guard} {who : Caller}
  {s s' : Store}

theorem Tending.lasting {a : Action α} {Q : α → Store → Prop} {r : Except Error α}
    (h : Tending agree (fun _ => none) (fun _ => True) a Q) (hs : s.Sound agree)
    (ht : s.Timely fun _ => none) (hrun : a.run s = (r, s')) : Lasting V s s' := by
  obtain ⟨_, ht', hk, _⟩ := h s r s' hs ht trivial hrun
  exact hk.lasting ht'

theorem Quiet.lasting {a : Action α} {Q : α → Store → Prop} {r : Except Error α}
    (h : Quiet agree G (fun _ => True) a Q) (hs : s.Sound agree) (hg : s.Guarded G)
    (ht : s.Timely fun _ => none) (hrun : a.run s = (r, s')) : Lasting V s s' := by
  rw [(h s r s' hs hg trivial hrun).1]
  exact lasting_locks ht

/-- A time is set through a guard. -/
theorem lasting_setExpiration {g : Guard} {time : UInt32} (hs : s.Sound agree)
    (hg : g.item = s.lockItem g.item.slot) (hlive : s.Live g.item.slot)
    (ht : s.Timely fun _ => none) (hV : ¬ V g.item.slot) :
    Lasting V s ((s.expireAt g.item.slot time).scheduleAt (.vertex g.item.label) time) :=
  ⟨timely_setExpiration hs hg hlive ht, (sameFrame_expireAt s _ time).count.ge, fun _ _ hc =>
    expires_setExpiration fun e => hV (e ▸ hc)⟩

theorem lasting_markExpiring {id : String} {time : UInt32} {r : Except Error Unit}
    (hs : s.Sound agree) (hg : s.Guarded G) (ht : s.Timely fun _ => none)
    (hV : ∀ c, s.lookup id = some c → r = .ok () → ¬ V c)
    (hrun : (markExpiring who id time).run s = (r, s')) : Lasting V s s' := by
  rcases run_markExpiring hg hrun with ⟨_, rfl⟩ | ⟨c, g, locks, held, rfl, rfl⟩
  · exact (Kept.refl s').lasting ht
  · obtain ⟨hs₁, hg₁⟩ := held.sound hs hg
    have ht₁ : Timely (fun _ => none) { s with locks } := ht.calm (calm_of_cells rfl rfl rfl)
    have hlive : Store.Live { s with locks } g.item.slot := held.slot ▸ (held.live hs).1
    have hset : Lasting V { s with locks }
        ((Store.expireAt { s with locks } g.item.slot time).scheduleAt
          (.vertex g.item.label) time) :=
      lasting_setExpiration hs₁ (hg₁.item g List.mem_cons_self).2 hlive ht₁
        (held.slot ▸ hV c held.found rfl)
    have hdrop := kept_drop ((Store.expireAt { s with locks } g.item.slot time).scheduleAt
      (.vertex g.item.label) time) g
    refine ⟨hset.timely.calm (calm_drop _ g), hset.count.trans hdrop.cells.count,
      fun c hc hVc => ?_⟩
    exact (hdrop.expires c (Nat.lt_of_lt_of_le hc hset.count)).trans (hset.expires c hc hVc)

theorem lasting_runExpiration {time : UInt32} {r : Except Error ExpirationReport}
    (hs : s.Sound agree) (hg : s.Guarded G) (ht : s.Timely fun _ => none)
    (hrun : (runExpiration who time).run s = (r, s')) :
    Lasting (fun c => ∀ out, (c, out) ∈ (Request.runExpiration time).deletions who s →
      Refused out) s s' := by
  have ht' := timely_runExpiration hs hg ht hrun
  rcases run_runExpiration hrun with ⟨_, _, rfl⟩ | ⟨hup, report, again, s₁, _, _, run, rfl⟩
  · exact (Kept.refl s').lasting ht'
  · obtain ⟨hs₀, hg₀⟩ := sound_popped hs hg time
    refine ⟨ht', (swept_pass hs hg hrun).cells.count, fun c _ hc => ?_⟩
    obtain rfl := run.store
    refine expires_tryAll hs₀ hg₀ fun out hm => hc out ?_
    rw [Request.deletions, hup]
    exact hm

/-- A request of a graph in use. -/
theorem lasting_request {r : Request α} (hr : r.isRestore = false) {out : Except Error α}
    (hs : s.Sound agree) (hg : s.Guarded G) (ht : s.Timely fun _ => none)
    (hrun : (r.action who).run s = (out, s')) :
    Lasting (fun c => (∀ out, (c, out) ∈ r.deletions who s → Refused out) ∧
      ¬ r.SetsExpiration who c s) s s' := by
  cases r with
  | create id type => exact (tending_create id type).lasting hs ht hrun
  | delete id =>
    have run := run_delete hs hg hrun
    refine ⟨(run.timely hs hg ht).1, ?_, fun c _ hc => run.expires fun hfound => ?_⟩
    · exact (run.swept hs hg (V := fun _ => True) (A := fun _ => True)
        fun _ _ _ => trivial).cells.count
    · refine hc.1 _ (mem_deletion_iff.2 ⟨id, rfl, hfound, ?_⟩)
      exact congrArg Prod.fst hrun.symm
  | contains id =>
    cases hrun
    exact (Kept.refl _).lasting ht
  | info id => exact (quiet_vertexInfo id).lasting hs hg ht hrun
  | connect r => exact (tending_connect r).lasting hs ht hrun
  | disconnect anchor probe neighbor =>
    have run := run_disconnect hs hg hrun
    exact ⟨ht.calm run.calm, run.calm.cells.count, fun c _ _ => run.sameDates.expires c⟩
  | count initial relationship terminal delta => exact (tending_count _ _ _ _).lasting hs ht hrun
  | accumulate initial relationship terminal delta =>
    exact (tending_accumulate _ _ _ _).lasting hs ht hrun
  | addTo initial relationship terminal kind delta =>
    exact (tending_addTo _ _ _ _ _).lasting hs ht hrun
  | arcValue initial probe terminal => exact (quiet_arcValue _ _ _).lasting hs hg ht hrun
  | adjacent anchor probe neighbor => exact (quiet_adjacent _ _ _).lasting hs hg ht hrun
  | degree anchor probe => exact (quiet_degree _ _).lasting hs hg ht hrun
  | neighborhood q => exact (quiet_neighborhood q).lasting hs hg ht hrun
  | aggregate q => exact (quiet_aggregate q).lasting hs hg ht hrun
  | terminals anchor relationship timeout =>
    exact (quiet_ofNeighborhood _ _).lasting hs hg ht hrun
  | initials anchor relationship timeout =>
    exact (quiet_ofNeighborhood _ _).lasting hs hg ht hrun
  | outarcs anchor timeout => exact (quiet_ofNeighborhood _ _).lasting hs hg ht hrun
  | inarcs anchor timeout => exact (quiet_ofNeighborhood _ _).lasting hs hg ht hrun
  | setReadonly =>
    cases hrun
    exact lasting_locks ht
  | clearReadonly =>
    cases hrun
    exact lasting_locks ht
  | markExpiring id time =>
    refine lasting_markExpiring hs hg ht (fun c hfound hdone hc => hc.2 ⟨hfound, ?_⟩) hrun
    exact (congrArg Prod.fst hrun).trans hdone
  | markArcExpiring initial relationship terminal time =>
    exact (tending_markArcExpiring _ _ _ _).lasting hs ht hrun
  | runExpiration time =>
    have h := lasting_runExpiration hs hg ht hrun
    exact ⟨h.timely, h.count, fun c hc hV => h.expires c hc hV.1⟩
  | snapshot => exact quiet_snapshot.lasting hs hg ht hrun
  | restore s => cases hr

/-- A request through a handle. -/
theorem lasting_handleRequest {r : HandleRequest α} {g : Guard} {out : Except Error α}
    (hs : s.Sound agree) (hg : g.item = s.lockItem g.item.slot)
    (hlive : ∀ c, r.SetsExpiration g c → s.Live c) (ht : s.Timely fun _ => none)
    (hrun : (r.action who g).run s = (out, s')) :
    Lasting (fun c => ¬ r.SetsExpiration g c) s s' := by
  cases r with
  | view =>
    cases hrun
    exact (Kept.refl _).lasting ht
  | setProperty name value => exact (tending_setProperty g name value).lasting hs ht hrun
  | removeProperty name => exact (tending_removeProperty g name).lasting hs ht hrun
  | setVector vector => exact (tending_setVector g vector).lasting hs ht hrun
  | setExpiration time =>
    rw [HandleRequest.action, run_setExpiration] at hrun
    cases hwritable : g.isWritable with
    | false =>
      rw [hwritable] at hrun
      cases hrun
      exact (Kept.refl _).lasting ht
    | true =>
      rw [hwritable] at hrun
      cases hrun
      exact lasting_setExpiration hs hg (hlive _ ⟨hwritable, rfl⟩) ht
        fun hV => hV ⟨hwritable, rfl⟩

end Action

/-! ## Operations -/

namespace Session

variable {agree : Agreement} {s : Session}

theorem tends_close (hs : s.store.Sound agree) (ht : s.store.Timely fun _ => none)
    (name : GuardName) :
    (s.close name).store.Sound agree ∧ ((s.close name).store.Timely fun _ => none) ∧
      s.store.Kept (s.close name).store := by
  unfold close
  split
  · exact tends_drop hs ht _
  · exact ⟨hs, ht, .refl _⟩

theorem tends_keepAll (hs : s.store.Sound agree) (ht : s.store.Timely fun _ => none) (u : Thread)
    (names : List String) (guards : List Guard) :
    (s.keepAll u names guards).store.Sound agree ∧
      ((s.keepAll u names guards).store.Timely fun _ => none) ∧
        s.store.Kept (s.keepAll u names guards).store := by
  induction guards generalizing s names with
  | nil => cases names <;> exact ⟨hs, ht, .refl _⟩
  | cons g rest ih =>
    cases names with
    | nil =>
      obtain ⟨hs₁, ht₁, hk₁⟩ := tends_drop hs ht g
      obtain ⟨hs₂, ht₂, hk₂⟩ := ih (s := { s with store := s.store.drop g }) hs₁ ht₁ []
      exact ⟨hs₂, ht₂, hk₁.trans hk₂⟩
    | cons name names =>
      obtain ⟨hs₁, ht₁, hk₁⟩ := tends_close hs ht ⟨u, name⟩
      obtain ⟨hs₂, ht₂, hk₂⟩ := ih (s := s.keep ⟨u, name⟩ g) hs₁ ht₁ names
      exact ⟨hs₂, ht₂, hk₁.trans hk₂⟩

end Session

namespace Operation

open Session

variable {agree : Agreement} {s : Session} {who : Caller}

theorem lasting_openVertex {V : CellId → Prop} (hs : s.store.Sound agree)
    (ht : s.store.Timely fun _ => none) (name id : String) (mode : OpenMode) :
    Lasting V s.store (s.openVertex who name id mode).2.store := by
  cases hrun : (Action.openVertex who id mode).run s.store with
  | mk r store =>
    obtain ⟨hs₁, ht₁, hk₁, _⟩ := tending_openVertex id mode s.store r store hs ht trivial hrun
    cases r with
    | error e =>
      simp only [Session.openVertex, perform, hrun]
      exact hk₁.lasting ht₁
    | ok g =>
      simp only [Session.openVertex, perform, hrun]
      obtain ⟨_, ht₂, hk₂⟩ := tends_close (s := { s with store }) hs₁ ht₁ ⟨who.thread, name⟩
      exact (hk₁.trans hk₂).lasting ht₂

theorem lasting_openVertices {V : CellId → Prop} (hs : s.store.Sound agree)
    (ht : s.store.Timely fun _ => none) (names ids : List String) (mode : OpenMode) :
    Lasting V s.store (s.openVertices who names ids mode).2.store := by
  cases hrun : (Action.openVertices who ids mode).run s.store with
  | mk r store =>
    obtain ⟨hs₁, ht₁, hk₁, _⟩ := tending_openVertices ids mode s.store r store hs ht trivial hrun
    cases r with
    | error e =>
      simp only [Session.openVertices, perform, hrun]
      exact hk₁.lasting ht₁
    | ok guards =>
      simp only [Session.openVertices, perform, hrun]
      obtain ⟨_, ht₂, hk₂⟩ := tends_keepAll (s := { s with store }) hs₁ ht₁ who.thread names guards
      exact (hk₁.trans hk₂).lasting ht₂

theorem store_escalate {name : GuardName} {p : Except Error LockMode × Session}
    (h : s.escalate name = some p) :
    ∃ g, p.2.store = ((Action.escalate g).run s.store).2 := by
  obtain ⟨g, _, rfl⟩ := Option.map_eq_some_iff.1 h
  refine ⟨g, ?_⟩
  cases hrun : (Action.escalate g).run s.store with
  | mk r store => cases r <;> simp only [perform, hrun]

theorem store_relax {name : GuardName} {p : Except Error (Option HandleView) × Session}
    (h : s.relax name = some p) : ∃ g, p.2.store = ((Action.relax g).run s.store).2 := by
  obtain ⟨g, _, rfl⟩ := Option.map_eq_some_iff.1 h
  refine ⟨g, ?_⟩
  cases hrun : (Action.relax g).run s.store with
  | mk r store =>
    cases r with
    | error e => simp only [perform, hrun]
    | ok relaxed => cases relaxed <;> simp only [perform, hrun]

/-- An operation of a graph in use loses no expiration, and a vertex that it spares expires
when it did. -/
theorem lasting_after (hs : s.Sound agree) (ht : s.store.Timely fun _ => none) {op : Operation}
    (fit : op.Fit who s) : Lasting (op.Spares who s) s.store (op.after who s).store := by
  cases op with
  | ask r =>
    cases hrun : (r.action who).run s.store with
    | mk out store =>
      simp only [after, Session.ask, perform, hrun]
      exact lasting_request fit hs.store hs.guarded ht hrun
  | openVertex name id mode => exact lasting_openVertex hs.store ht name id mode
  | openVertices names ids mode => exact lasting_openVertices hs.store ht names ids mode
  | askHandle name r =>
    cases hheld : s.handle? ⟨who.thread, name⟩ with
    | none =>
      simp only [after, Session.askHandle, hheld, Option.map_none, Option.getD_none]
      exact (Kept.refl _).lasting ht
    | some g =>
      cases hrun : (r.action who g).run s.store with
      | mk out store =>
        simp only [after, Session.askHandle, hheld, Option.map_some, Option.getD_some, perform,
          hrun]
        have h := lasting_handleRequest hs.store
          (hs.guarded.item g (mem_guards_of_handle? hheld)).2 (fun c => fit g c hheld) ht hrun
        exact ⟨h.timely, h.count, fun c hc hV => h.expires c hc fun hset => hV.2 ⟨g, hheld, hset⟩⟩
  | escalate name =>
    cases hrun : s.escalate ⟨who.thread, name⟩ with
    | none =>
      simp only [after, hrun, Option.map_none, Option.getD_none]
      exact (Kept.refl _).lasting ht
    | some p =>
      simp only [after, hrun, Option.map_some, Option.getD_some]
      obtain ⟨g, hstore⟩ := store_escalate hrun
      rw [hstore]
      exact (tending_escalate g).lasting hs.store ht rfl
  | relax name =>
    cases hrun : s.relax ⟨who.thread, name⟩ with
    | none =>
      simp only [after, hrun, Option.map_none, Option.getD_none]
      exact (Kept.refl _).lasting ht
    | some p =>
      simp only [after, hrun, Option.map_some, Option.getD_some]
      obtain ⟨g, hstore⟩ := store_relax hrun
      rw [hstore]
      exact (tending_relax g).lasting hs.store ht rfl
  | close name =>
    obtain ⟨_, ht', hk⟩ := tends_close hs.store ht ⟨who.thread, name⟩
    exact hk.lasting ht'

end Operation

end Arcbase
