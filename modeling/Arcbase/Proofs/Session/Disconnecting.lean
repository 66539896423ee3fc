import Arcbase.Proofs.Action.Disconnecting
import Arcbase.Proofs.Session.Reach
import Mathlib
set_option autoImplicit false

/-!
# Disconnecting

A disconnect is exact in every reachable graph: it takes off the arcs that it is after
and whose other end its thread can hold, and tells how many these are and how many are
left.  If the anchor cannot be held it changes nothing.
-/

namespace Arcbase

open Arcbase.Action Store

namespace Store

/-- Whether a thread can hold a vertex writable. -/
def CanHold (s : Store) (me : Thread) (c : CellId) : Prop :=
  s.locks.readonly = false ∧ (s.locks.acquire me (s.lockItem c) .writable).isOk = true

theorem CanHold.acquired {s : Store} {me : Thread} {c : CellId} (h : s.CanHold me c) :
    ∃ g locks, s.locks.acquire me (s.lockItem c) .writable = .ok (g, locks) := by
  cases hacq : s.locks.acquire me (s.lockItem c) .writable with
  | error e =>
    have hok := h.2
    rw [hacq] at hok
    cases hok
  | ok p => exact ⟨p.1, p.2, rfl⟩

end Store

namespace Action

variable {s : Store} {who : Caller} {anchor : String} {probe : Probe} {neighbor : Option String}
  {filter : ArcFilter} {c : CellId} {n : Option CellId}

/-- A disconnect that does not come to hold its anchor changes nothing. -/
theorem run_disconnect_of_error (neighbor : Option String)
    (h : ∀ filter c, s.filterOf probe = .ok filter → s.lookup anchor = some c →
      ¬ s.CanHold who.thread c) :
    ∃ e, (disconnect who anchor probe neighbor).run s = (.error e, s) ∧
      ∀ filter c, s.filterOf probe = .ok filter → s.lookup anchor = some c →
        ∃ cause, e = .access cause := by
  rw [disconnect, run_bind, run_checkWritable]
  by_cases hreadonly : s.locks.readonly = true
  · rw [if_pos hreadonly]
    exact ⟨_, rfl, fun _ _ _ _ => ⟨_, rfl⟩⟩
  · rw [if_neg hreadonly]
    simp only [run_bind, read, run_ofFun, ofExcept, run_find, holding, acquire]
    cases hfilter : s.filterOf probe with
    | error e => exact ⟨e, rfl, fun _ _ hp => by cases hp⟩
    | ok filter =>
      cases hanchor : s.lookup anchor with
      | none =>
        simp only [hanchor]
        exact ⟨_, rfl, fun _ _ _ ha => by cases ha⟩
      | some c =>
        cases hacq : s.locks.acquire who.thread (s.lockItem c) .writable with
        | error e =>
          simp only [hanchor, hacq]
          exact ⟨_, rfl, fun _ _ _ _ => ⟨e, rfl⟩⟩
        | ok p =>
          refine absurd ⟨?_, ?_⟩ (h filter c hfilter hanchor)
          · simpa using hreadonly
          · rw [hacq]
            rfl

/-- A disconnect whose probe is unfit says so. -/
theorem run_disconnect_of_unfit {e : Error} (neighbor : Option String)
    (hreadonly : s.locks.readonly = false) (hfault : s.filterOf probe = .error e) :
    (disconnect who anchor probe neighbor).run s = (.error e, s) := by
  rw [disconnect, run_bind, run_checkWritable, hreadonly, if_neg Bool.false_ne_true]
  simp only [run_bind, read, run_ofFun, ofExcept, hfault]

/-- A disconnect that comes to hold its anchor removes arcs around it. -/
theorem run_disconnect_of_ok (hprobe : s.filterOf probe = .ok filter)
    (hanchor : s.lookup anchor = some c) (hneighbor : neighbor.mapM s.lookup = some n)
    (hreadonly : s.locks.readonly = false) {g : Guard} {t : LockTable}
    (hacq : s.locks.acquire who.thread (s.lockItem c) .writable = .ok (g, t)) :
    ∃ r s', (sever who c filter probe.direction (n.map s.keyOf)).run { s with locks := t } =
        (r, s') ∧
      (disconnect who anchor probe neighbor).run s = (r, s'.drop g) := by
  refine ⟨_, _, rfl, ?_⟩
  rw [disconnect, run_bind, run_checkWritable, hreadonly, if_neg Bool.false_ne_true]
  simp only [run_bind, read, run_ofFun, ofExcept, run_find, holding, acquire, ensuring]
  simp only [hprobe, hanchor, hacq]
  cases neighbor with
  | none =>
    cases hneighbor
    rfl
  | some id =>
    cases hfound : s.lookup id with
    | none => simp [hfound] at hneighbor
    | some m =>
      have hn : n = some m := by simpa [hfound] using hneighbor.symm
      subst hn
      have hfound' : Store.lookup { s with locks := t } id = some m := hfound
      simp only [run_bind, run_ofFun, hfound']
      rfl

end Action

/-! ## In a session -/

variable {s : Session}

/-- A disconnect in a reachable session: exact if it comes to hold its anchor, and
without effect if it does not. -/
theorem disconnect_exact (h : Reach Operation.Live s) (who : Caller) (anchor : String)
    (probe : Probe) (neighbor : Option String) :
    (∀ filter c n, s.store.filterOf probe = .ok filter → s.store.lookup anchor = some c →
      neighbor.mapM s.store.lookup = some n → s.store.CanHold who.thread c →
        (s.ask who (.disconnect anchor probe neighbor)).2.store.TwoSided ∧
          s.store.Disconnected who.thread s.guards c
            ⟨s.store.keyOf c, filter, probe.direction, n.map s.store.keyOf⟩
            (s.ask who (.disconnect anchor probe neighbor)).2.store
            (s.ask who (.disconnect anchor probe neighbor)).1) ∧
      ((∀ filter c, s.store.filterOf probe = .ok filter → s.store.lookup anchor = some c →
        ¬ s.store.CanHold who.thread c) →
          ∃ e, s.ask who (.disconnect anchor probe neighbor) = (.error e, s) ∧
            ∀ filter c, s.store.filterOf probe = .ok filter → s.store.lookup anchor = some c →
              ∃ cause, e = .access cause) := by
  obtain ⟨hstore, hguarded, _⟩ := h.sound_live
  constructor
  · intro filter c n hprobe hanchor hneighbor ⟨hreadonly, hfree⟩
    have hafter := (h.step who (.ask (.disconnect anchor probe neighbor)) rfl).sound_live
    refine ⟨hafter.store.twoSided, ?_⟩
    have hc := (hstore.placed.of_lookup hanchor).1
    cases hacq : s.store.locks.acquire who.thread (s.store.lockItem c) .writable with
    | error e => simp [hacq, Except.isOk, Except.toBool] at hfree
    | ok p =>
      obtain ⟨g, t⟩ := p
      obtain ⟨hwriter, hopen⟩ := LockTable.open_of_acquire hguarded.accounts hacq
      have hslot : g.item.slot = c := congrArg LockItem.slot (LockTable.acquire_ok hacq).2.1
      have hheld := hguarded.acquire hc.1 hacq
      have hsound : ({ s.store with locks := t } : Store).Sound .equal :=
        (Step.locks (W := fun _ => True) s.store t).sound hstore
      obtain ⟨r, s₁, hsever, hrun⟩ :=
        run_disconnect_of_ok hprobe hanchor hneighbor hreadonly hacq
      obtain ⟨rm, s₂, rfl, rfl, hwalk⟩ := run_sever hsound hheld hc hsever
      have hdone := disconnected_of_severRun hsound hc hwriter hslot hopen hwalk
      simp only [Session.ask, Session.perform, Request.action, hrun]
      exact hdone.of_acquire hstore.placed hguarded hc hacq
  · intro hrefused
    obtain ⟨e, hrun, haccess⟩ := run_disconnect_of_error neighbor hrefused
    refine ⟨e, ?_, haccess⟩
    simp only [Session.ask, Session.perform, Request.action, hrun]

/-- Connects a vertex to another one. -/
def linkTo (t : String) : Operation :=
  .ask (.connect { initial := "a", arc := { relationship := "r" }, terminals := .one t })

/-- Two arcs from one vertex, the terminal of the first being read by another thread. -/
def oneNeighborRead : Session :=
  (Operation.openVertex "h" "b" .readonly).after ⟨⟨"t"⟩, 6⟩
    ((linkTo "c").after ⟨⟨"m"⟩, 5⟩ ((linkTo "b").after ⟨⟨"m"⟩, 5⟩ (.new {} .new)))

theorem reach_oneNeighborRead : Reach Operation.Live oneNeighborRead := by
  have hlive : ∀ t, (linkTo t).Live := fun _ => by rfl
  have hempty : Reach Operation.Live (.new {} .new) := .start {} .new
  have hfirst := hempty.step ⟨⟨"m"⟩, 5⟩ (linkTo "b") (hlive "b")
  have hsecond := hfirst.step ⟨⟨"m"⟩, 5⟩ (linkTo "c") (hlive "c")
  exact hsecond.step ⟨⟨"t"⟩, 6⟩ (.openVertex "h" "b" .readonly) trivial

/-- One of the two arcs is taken off, and one is left. -/
theorem disconnect_exact_oneNeighborRead :
    let after := oneNeighborRead.ask ⟨⟨"m"⟩, 7⟩ (.disconnect "a" .any none)
    after.1 = .error (.arc (.incomplete 1 1 (.timeout "b" .writable))) ∧
      oneNeighborRead.store.Disconnected ⟨"m"⟩ oneNeighborRead.guards 0
        ⟨oneNeighborRead.store.keyOf 0, .all, .any, none⟩ after.2.store after.1 := by
  refine ⟨?_, ?_⟩
  · set_option maxRecDepth 10000 in
    cbv
  · have hanchor : oneNeighborRead.store.lookup "a" = some 0 := by
      set_option maxRecDepth 10000 in
      cbv
    have hhold : oneNeighborRead.store.CanHold ⟨"m"⟩ 0 := by
      set_option maxRecDepth 10000 in
      cbv
    have hprobe : oneNeighborRead.store.filterOf .any = .ok .all := rfl
    have hdone := (disconnect_exact reach_oneNeighborRead ⟨⟨"m"⟩, 7⟩ "a" .any none).1 .all 0 none
      hprobe hanchor rfl hhold
    exact hdone.2

end Arcbase
