import Arcbase.Proofs.Session.Balanced
import Arcbase.Proofs.Session.Confined
import Arcbase.Proofs.Session.Marking
set_option autoImplicit false

/-!
# When vertices were created

Every operation but a restore registers whatever it registers before it takes any vertex out
(`Operation.turnover_after`).  So an identifier that is registered before and after it stands
for one and the same vertex, and this was created when it was (`Operation.created_after`).
-/

namespace Arcbase

open Arcbase.Action Store

variable {agree : Agreement} {who : Caller} {s : Session}

theorem turnover_request {α : Type} {G : List Guard} {r : Request α} {s s' : Store}
    {answer : Except Error α} (hr : r.isRestore = false) (hs : s.Sound agree) (hg : s.Guarded G)
    (hl : s.labels.Valid) (hn : s.Named) (hp' : s'.Placed)
    (hrun : (r.action who).run s = (answer, s')) : s.Turnover s' := by
  have hlocks : ∀ locks, s.Turnover { s with locks } :=
    fun locks => (sameFrame_locks s locks).wanes.turnover hs.placed
  by_cases hread : r.isReading = true
  · have losses := toleratesLosses_wanes agree who.now
    exact (losses.reading (quiet_request who r hread) hs hg trivial hrun).2.turnover hs.placed
  · cases r with
    | create id type => exact turnsOver_create id type s answer s' hs trivial hrun
    | delete id => exact (wanes_delete hs hg hrun).turnover hs.placed
    | connect | count | accumulate | addTo =>
      exact (linking_action rfl hs hg hl hn hrun).turnover hs hp'
    | disconnect anchor probe neighbor => exact (wanes_disconnect hs hg hrun).turnover hs.placed
    | setReadonly | clearReadonly =>
      cases hrun
      exact hlocks _
    | markExpiring id time => exact turnsOver_markExpiring id time s answer s' hs trivial hrun
    | markArcExpiring initial relationship terminal time =>
      exact (run_markArcExpiring hs hg hrun).turnover hs hl
    | runExpiration time => exact (wanes_runExpiration hs hg hrun).turnover hs.placed
    | restore => cases hr
    | _ => exact absurd rfl hread

theorem turnover_handleRequest {α : Type} {g : Guard} (r : HandleRequest α) :
    TurnsOver agree (fun _ => True) (r.action who g) := by
  have losses := toleratesLosses_wanes agree who.now
  cases r with
  | view => exact confined_read_any.turnsOver
  | setProperty name value => exact (losses.settingProperty g name value).turnsOver
  | removeProperty name => exact (losses.removingProperty g name).turnsOver
  | setVector vector => exact (losses.settingVector g vector).turnsOver
  | setExpiration time => exact (confined_setExpiration g time).turnsOver

namespace Session

theorem turnover_openVertex (hs : s.store.Sound agree) (name id : String) (mode : OpenMode) :
    s.store.Turnover (s.openVertex who name id mode).2.store := by
  cases hrun : (Action.openVertex who id mode).run s.store with
  | mk r store =>
    obtain ⟨hs₁, _, hwaxes, _⟩ := (toleratesGains_waxes agree who.now).openingVertex id mode s.store
      r store hs trivial trivial hrun
    cases r with
    | error e =>
      simp only [openVertex, perform, hrun]
      exact hwaxes.turnover hs₁.placed
    | ok g =>
      simp only [openVertex, perform, hrun]
      have hclosed := (toleratesLosses_wanes agree who.now).closing (s := { s with store }) hs₁
        trivial ⟨who.thread, name⟩
      exact ⟨store, hwaxes, hs₁.placed, hclosed.2.2⟩

theorem turnover_openVertices (hs : s.store.Sound agree) (names ids : List String)
    (mode : OpenMode) : s.store.Turnover (s.openVertices who names ids mode).2.store := by
  cases hrun : (Action.openVertices who ids mode).run s.store with
  | mk r store =>
    obtain ⟨hs₁, _, hwaxes, _⟩ := (toleratesGains_waxes agree who.now).openingVertices ids mode
      s.store r store hs trivial trivial hrun
    cases r with
    | error e =>
      simp only [openVertices, perform, hrun]
      exact hwaxes.turnover hs₁.placed
    | ok guards =>
      simp only [openVertices, perform, hrun]
      have hkept := (toleratesLosses_wanes agree who.now).keepingAll (s := { s with store }) hs₁
        trivial who.thread names guards
      exact ⟨store, hwaxes, hs₁.placed, hkept.2.2⟩

end Session

namespace Operation

open Session

section After

variable (hs : s.Sound agree) (hl : s.store.labels.Valid) (hn : s.store.Named) (op : Operation)
  (hlive : op.Live)
include hs hl hn hlive

theorem turnover_after : s.store.Turnover (op.after who s).store := by
  have losses := toleratesLosses_wanes agree who.now
  have hsame : s.store.Turnover s.store := (SameFrame.refl s.store).waxes.turnover hs.store.placed
  have hplaced := (op.steps_after hs (covers_open who.thread s.guards) hlive).2.store.placed
  cases op with
  | ask r => exact turnover_request hlive hs.store hs.guarded hl hn hplaced rfl
  | openVertex name id mode => exact turnover_openVertex hs.store name id mode
  | openVertices names ids mode => exact turnover_openVertices hs.store names ids mode
  | askHandle name r =>
    cases hheld : s.handle? ⟨who.thread, name⟩ with
    | none =>
      simp only [after, Session.askHandle, hheld, Option.map_none, Option.getD_none]
      exact hsame
    | some g =>
      simp only [after, Session.askHandle, hheld, Option.map_some, Option.getD_some]
      exact turnover_handleRequest r s.store _ _ hs.store trivial rfl
  | escalate name =>
    cases hrun : s.escalate ⟨who.thread, name⟩ with
    | none =>
      simp only [after, hrun, Option.map_none, Option.getD_none]
      exact hsame
    | some p =>
      simp only [after, hrun, Option.map_some, Option.getD_some]
      obtain ⟨g, hstore⟩ := store_escalate hrun
      rw [hstore]
      exact (losses.escalating g).turnsOver s.store _ _ hs.store trivial rfl
  | relax name =>
    cases hrun : s.relax ⟨who.thread, name⟩ with
    | none =>
      simp only [after, hrun, Option.map_none, Option.getD_none]
      exact hsame
    | some p =>
      simp only [after, hrun, Option.map_some, Option.getD_some]
      obtain ⟨g, hstore⟩ := store_relax hrun
      rw [hstore]
      exact (losses.relaxing g).turnsOver s.store _ _ hs.store trivial rfl
  | close name =>
    exact (losses.closing hs.store trivial ⟨who.thread, name⟩).2.2.turnover hs.store.placed

/-- An identifier that is registered before and after stands for a vertex that was created when
it was. -/
theorem created_after {id : String} {c c' : CellId} (hc : s.store.lookup id = some c)
    (hc' : (op.after who s).store.lookup id = some c') :
    ((op.after who s).store.data c').created = (s.store.data c).created :=
  (turnover_after hs hl hn op hlive).created
    (op.steps_after hs (covers_open who.thread s.guards) hlive).1 hs.store.placed hc hc'

end After

end Operation

end Arcbase
