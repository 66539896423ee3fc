import Arcbase.Proofs.Query.Timing
import Arcbase.Proofs.Session.Totals
import Mathlib
set_option autoImplicit false

/-!
# Queries that bound their running time

A query that bounds its running time answers as it would without the bound, if no arc of its
walk is taken up late; otherwise it fails where the first such arc is taken up
(`time_checked_at_arcs`).  So a query that takes no longer than its bound is not disturbed.

An answer does not mean that the bound was kept.  Nothing looks at the time after the last arc is
taken up, and whatever is evaluated from then on may take as long as it likes
(`not_elapsed_le_timeout`).
-/

namespace Arcbase

open Arcbase.Action
open Moment (total InTime)
open Watching (Limits)

/-! ## Plans -/

/-- An outcome that can fail for a fault of the query only. -/
def Faulting {α : Type} (r : Except Error α) : Prop := ∀ e, r = .error e → ∃ fault, e = .query fault

theorem faulting_ok {α : Type} (x : α) : Faulting (.ok x) := by
  intro e he
  cases he

theorem faulting_query {α : Type} (fault : QueryFault) :
    Faulting (.error (.query fault) : Except Error α) := fun _ he =>
  ⟨fault, (Except.error.inj he).symm⟩

theorem Faulting.bind {α β : Type} {r : Except Error α} {f : α → Except Error β} (h : Faulting r)
    (hf : ∀ x, Faulting (f x)) : Faulting (r >>= f) := by
  cases r with
  | error e => exact fun e' he => h e' (congrArg Except.error (Except.error.inj he))
  | ok x => exact hf x

theorem faulting_mapError {α : Type} (r : Except QueryFault α) :
    Faulting (r.mapError Error.query) := by
  cases r with
  | error fault => exact faulting_query fault
  | ok x => exact faulting_ok x

theorem faulting_mapM {α β : Type} {f : α → Except Error β} (h : ∀ x, Faulting (f x))
    (o : Option α) : Faulting (o.mapM f) := by
  cases o with
  | none => exact faulting_ok none
  | some x => exact (h x).bind fun y => faulting_ok (some y)

namespace Store

variable (s : Store)

theorem faulting_filterOf (p : Probe) : Faulting (s.filterOf p) := by
  unfold filterOf ArcFilter.ofProbe
  split
  · exact faulting_query _
  · split
    · exact faulting_ok _
    · exact faulting_query _
    · split <;> exact faulting_ok _

theorem faulting_planVertex (c : VertexCondition) : Faulting (s.planVertex c) := by
  unfold planVertex
  dsimp only
  split
  · exact faulting_ok _
  · exact faulting_query _
  · exact faulting_ok _

theorem faulting_planLevel (level : Level) (stopsAtMatch : Bool) :
    Faulting (s.planLevel level stopsAtMatch) := by
  refine (s.faulting_filterOf level.arc).bind fun _ => ?_
  refine (faulting_mapM s.faulting_planVertex level.vertex).bind fun _ => ?_
  refine (faulting_mapM (fun a => ?_) level.adjacent).bind fun _ => faulting_ok _
  exact (s.faulting_filterOf a.probe).bind fun _ => faulting_ok _

theorem faulting_planNested (levels : List Level) : Faulting (s.planNested levels) := by
  induction levels with
  | nil => exact faulting_ok []
  | cons level below ih =>
    exact (s.faulting_planLevel level _).bind fun _ => ih.bind fun _ => faulting_ok _

end Store

namespace Query

/-- The query without a bound on its running time. -/
def unbounded (q : Query) : Query := { q with boundsTime := false }

/-- What is noted of the walk of a query. -/
def course (q : Query) (who : Caller) (s : Store) : List Moment :=
  match q.plan s with
  | .ok p => ((Watching.walk p who).run ⟨s, []⟩).2.course
  | .error _ => []

variable {q : Query} {s : Store}

/-- The bound is handed on to the plan, and is of no other use there. -/
theorem plan_of_timeLimit {limit : Option Nat} (h : q.timeLimit = .ok limit) (s : Store) :
    q.plan s = (q.unbounded.plan s).map (·.limited limit) := by
  cases hfault : s.identifierFault? q.anchor with
  | some fault =>
    rw [plan_of_fault hfault, plan_of_fault (q := q.unbounded) hfault]
    rfl
  | none =>
    by_cases hdeep : s.locks.limit ≤ q.depth
    · rw [plan_of_deep hfault hdeep, plan_of_deep (q := q.unbounded) hfault hdeep]
      rfl
    · have hmap : ∀ x : Except Error Plan,
          x.map (·.limited limit) = (·.limited limit) <$> x := fun _ => rfl
      have hfree : q.unbounded.timeLimit = .ok none := rfl
      rw [plan_of_shallow hfault hdeep, plan_of_shallow (q := q.unbounded) hfault hdeep, hmap, h,
        hfree]
      simp only [map_bind, map_pure]
      rfl

theorem faulting_plan (q : Query) (s : Store) : Faulting (q.plan s) := by
  cases hfault : s.identifierFault? q.anchor with
  | some fault =>
    rw [plan_of_fault hfault]
    exact faulting_query _
  | none =>
    by_cases hdeep : s.locks.limit ≤ q.depth
    · rw [plan_of_deep hfault hdeep]
      exact faulting_query _
    · rw [plan_of_shallow hfault hdeep]
      refine (faulting_mapError q.order).bind fun _ => ?_
      refine (faulting_mapError q.timeLimit).bind fun _ => ?_
      refine (s.faulting_planLevel q.root false).bind fun _ => ?_
      exact (s.faulting_planNested q.nested).bind fun _ => faulting_ok _

/-- A query with a bound and the same one without are both refused, or both walk one plan. -/
theorem plan_bounded {limit : Nat} (hbound : q.boundsTime = true)
    (htimeout : q.timeout = some limit) (s : Store) :
    (∃ e, q.plan s = .error e ∧ q.unbounded.plan s = .error e) ∨
      ∃ p : Plan, q.plan s = .ok (p.limited (some limit)) ∧
        q.unbounded.plan s = .ok (p.limited none) := by
  have hlimit : q.timeLimit = .ok (some limit) := by
    rw [timeLimit, if_pos hbound, htimeout]
  have hplan := plan_of_timeLimit hlimit s
  have hfree : q.unbounded.plan s = (q.unbounded.plan s).map (·.limited none) :=
    plan_of_timeLimit (q := q.unbounded) rfl s
  cases hunbounded : q.unbounded.plan s with
  | error e =>
    rw [hunbounded] at hplan
    exact .inl ⟨e, hplan, rfl⟩
  | ok p =>
    rw [hunbounded] at hplan hfree
    exact .inr ⟨p, hplan, hfree⟩

end Query

/-! ## Requests that walk -/

/-- A request carries the plan of a query out and reads its answer off the walk. -/
structure Request.Walks {α : Type} (request : Query → Request α) (answer : Plan → Walk → α) :
    Prop where
  refused {q : Query} {s : Session} {e : Error} (who : Caller) (h : q.plan s.store = .error e) :
    s.ask who (request q) = (.error e, s)
  walked {q : Query} {s : Session} {p : Plan} (who : Caller) (h : q.plan s.store = .ok p) :
    s.ask who (request q) = (((p.walk who).run s.store).1.map (answer p),
      { s with store := ((p.walk who).run s.store).2 })
  /-- The bound on the running time is not read. -/
  blind (p : Plan) (limit : Option Nat) : answer (p.limited limit) = answer p

theorem walks_of_action {α : Type} {request : Query → Request α} {answer : Plan → Walk → α}
    (haction : ∀ who q, (request q).action who =
      plan q >>= fun p => p.walk who >>= fun w => pure (answer p w))
    (hblind : ∀ p limit, answer (Plan.limited p limit) = answer p) :
    Request.Walks request answer where
  refused {q s e} who h := by
    rw [Session.ask, Session.perform, haction, run_bind, run_plan, h]
  walked {q s p} who h := by
    rw [Session.ask, Session.perform, haction, run_bind, run_plan, h]
    dsimp only
    rw [run_bind]
    cases (p.walk who).run s.store with
    | mk r s' => cases r <;> rfl
  blind := hblind

theorem walks_neighborhood : Request.Walks .neighborhood Plan.resultOf :=
  walks_of_action (fun _ _ => rfl) fun _ _ => rfl

theorem walks_aggregate : Request.Walks .aggregate fun _ w => .ofPool w.pool :=
  walks_of_action (fun _ _ => rfl) fun _ _ => rfl

/-! ## What the bound does -/

variable {α : Type} {limit : Nat}

/-- What a request answers, the store it leaves, and the course of its walk. -/
def Session.watch (s : Session) (who : Caller) (request : Query → Request α) (q : Query) :
    Except Error α × Watched :=
  ((s.ask who (request q)).1, ⟨(s.ask who (request q)).2.store, q.course who s.store⟩)

/-- What becomes of a request that bounds its running time. -/
structure Session.TimeBounded (s : Session) (who : Caller) (request : Query → Request α)
    (q : Query) (limit : Nat) : Prop where
  /-- It goes as without the bound, up to the first arc that is taken up late. -/
  limits : Limits limit (s.watch who request q.unbounded) (s.watch who request q)
  /-- Without the bound it is never out of time. -/
  unbounded : ∀ n, (s.ask who (request q.unbounded)).1 ≠ .error (.access (.executionTimeout n))
  /-- If it answers, no arc was taken up late. -/
  answered : ∀ x, (s.ask who (request q)).1 = .ok x → InTime limit (q.course who s.store)
  /-- What overruns the limit then is all evaluated after the last arc. -/
  overrun : ∀ x, (s.ask who (request q)).1 = .ok x → ∃ before after,
    q.course who s.store = before ++ after ∧ total before ≤ limit ∧ .arc ∉ after
  /-- If it is out of time, more than the limit went by. -/
  stopped : ∀ n, (s.ask who (request q)).1 = .error (.access (.executionTimeout n)) →
    total (q.course who s.store) = n ∧ limit < n
  /-- If no more than the limit goes by, the bound makes no difference. -/
  undisturbed : total (q.course who s.store) ≤ limit →
    s.ask who (request q) = s.ask who (request q.unbounded)

variable {s : Session} {who : Caller} {request : Query → Request α} {answer : Plan → Walk → α}
  {q : Query} {p : Plan}

/-- A request leaves the handles of a session alone. -/
theorem Session.ask_eq_of_watch {q' : Query} (h : s.watch who request q = s.watch who request q') :
    s.ask who (request q) = s.ask who (request q') := by
  have hanswer : (s.ask who (request q)).1 = (s.ask who (request q')).1 :=
    congrArg (fun w : Except Error α × Watched => w.1) h
  have hstore : (s.ask who (request q)).2.store = (s.ask who (request q')).2.store :=
    congrArg (fun w : Except Error α × Watched => w.2.store) h
  have hsession : ∀ r : Request α, (s.ask who r).2 = { s with store := (s.ask who r).2.store } :=
    fun _ => rfl
  refine Prod.ext hanswer ?_
  rw [hsession (request q), hsession (request q'), hstore]

theorem Session.timeBounded_of_limits
    (hlimits : Limits limit (s.watch who request q.unbounded) (s.watch who request q))
    (hfree : ∀ n, (s.ask who (request q.unbounded)).1 ≠ .error (.access (.executionTimeout n))) :
    s.TimeBounded who request q limit := by
  have hin : ∀ x, (s.ask who (request q)).1 = .ok x → InTime limit (q.course who s.store) := by
    intro x hx
    obtain ⟨hsame, hin⟩ | ⟨hstopped, -⟩ := hlimits.same_or_stopped
    · rwa [← hsame] at hin
    · cases hx.symm.trans hstopped
  refine ⟨hlimits, hfree, hin, fun x hx => (hin x hx).exists_split, fun n hn => ?_, fun hle => ?_⟩
  · obtain ⟨hsame, -⟩ | ⟨hstopped, hlate⟩ := hlimits.same_or_stopped
    · rw [ask_eq_of_watch hsame] at hn
      exact absurd hn (hfree n)
    · cases hn.symm.trans hstopped
      exact ⟨rfl, hlate⟩
  · obtain ⟨hsame, -⟩ | ⟨-, hlate⟩ := hlimits.same_or_stopped
    · exact ask_eq_of_watch hsame
    · exact absurd hle (Nat.not_le_of_lt hlate)

/-- A planned request shows what comes of its walk under watch. -/
theorem Request.Walks.watch (h : Request.Walks request answer) (hplan : q.plan s.store = .ok p)
    (who : Caller) : s.watch who request q =
      (((Watching.walk p who).run ⟨s.store, []⟩).1.map (answer p),
        ((Watching.walk p who).run ⟨s.store, []⟩).2) := by
  have hshows := Watching.shows_walk p who ⟨s.store, []⟩
  have hcourse : q.course who s.store = ((Watching.walk p who).run ⟨s.store, []⟩).2.course := by
    rw [Query.course, hplan]
  rw [Session.watch, h.walked who hplan, hcourse, hshows]

/-- Requests that walk are bounded alike. -/
theorem Request.Walks.timeBounded (h : Request.Walks request answer) (hbound : q.boundsTime = true)
    (htimeout : q.timeout = some limit) (s : Session) (who : Caller) :
    s.TimeBounded who request q limit := by
  obtain ⟨e, hrefused, hfree⟩ | ⟨p, hplan, hfree⟩ := q.plan_bounded hbound htimeout s.store
  · have hwatch : s.watch who request q = s.watch who request q.unbounded := by
      rw [Session.watch, Session.watch, h.refused who hrefused, h.refused who hfree, Query.course,
        Query.course, hrefused, hfree]
    have hnothing : (s.watch who request q.unbounded).2.course = [] := by
      rw [Session.watch, Query.course, hfree]
    refine Session.timeBounded_of_limits ?_ fun n hn => ?_
    · rw [hwatch]
      exact .kept (hnothing ▸ Moment.inTime_nil)
    · rw [h.refused who hfree] at hn
      obtain ⟨fault, hfault⟩ := Query.faulting_plan q s.store e hrefused
      cases hfault.symm.trans (Except.error.inj hn)
  · obtain ⟨-, hnever, -, hlimits⟩ := Watching.compares_walk p who limit s.store
    refine Session.timeBounded_of_limits ?_ fun n hn => ?_
    · rw [h.watch hplan, h.watch hfree, h.blind, h.blind]
      exact (hlimits Moment.inTime_nil).map _
    · have hanswer : (s.ask who (request q.unbounded)).1 = _ :=
        congrArg (fun w : Except Error α × Watched => w.1) (h.watch hfree who)
      exact hnever.map _ n (hanswer.symm.trans hn)

/-- What a query that bounds its running time answers, and an aggregation with it: as without the
bound, unless an arc is taken up late.  A result tells the time that went by. -/
theorem time_checked_at_arcs (hbound : q.boundsTime = true) (htimeout : q.timeout = some limit)
    (s : Session) (who : Caller) :
    s.TimeBounded who .neighborhood q limit ∧ s.TimeBounded who .aggregate q limit ∧
      ∀ r, (s.ask who (.neighborhood q)).1 = .ok r → r.elapsed = total (q.course who s.store) := by
  refine ⟨walks_neighborhood.timeBounded hbound htimeout s who,
    walks_aggregate.timeBounded hbound htimeout s who, fun r hr => ?_⟩
  obtain ⟨e, hrefused, -⟩ | ⟨p, hplan, -⟩ := q.plan_bounded hbound htimeout s.store
  · rw [walks_neighborhood.refused who hrefused] at hr
    cases hr
  · have hwatch := walks_neighborhood.watch hplan who
    have htold := (Watching.compares_walk p who limit s.store).told_limited Moment.inTime_nil
    rw [Session.watch, hr] at hwatch
    generalize (Watching.walk (p.limited (some limit)) who).run ⟨s.store, []⟩ = ending at *
    obtain ⟨outcome, v⟩ := ending
    have hcourse : q.course who s.store = v.course :=
      congrArg (fun w : Except Error QueryResult × Watched => w.2.course) hwatch
    cases outcome with
    | error e => cases hwatch
    | ok w =>
      obtain rfl : r = (p.limited (some limit)).resultOf w := Except.ok.inj (Prod.mk.inj hwatch).1
      rw [hcourse]
      exact htold w rfl

/-! ## Answers after the time is up -/

/-- The value of a sleep, bit by bit. -/
theorem sleep_eq (describe : String) (milliseconds : Nat) :
    Expression.sleep describe milliseconds =
      { describe
        evaluate := fun _ registers =>
          { result := .ok (.ofMagnitude false 0x3FF0000000000000), registers
            elapsed := milliseconds } } := by
  have hone : (Binary.ofInt 1 : Binary64) = .ofMagnitude false 0x3FF0000000000000 := by
    decide +kernel
  rw [Expression.sleep, hone]

/-- Ranking a candidate takes ten times as long as the query has. -/
def dwelling : Query :=
  { anchor := "a", root := { arc := .along "r" .out }, rank := some (.sleep "sleep" 100)
    timeout := some 10, boundsTime := true }

/-- Time is up when the second arc is taken up. -/
theorem time_checked_at_arcs_branching :
    dwelling.boundsTime = true ∧ dwelling.timeout = some 10 ∧
    (branching.ask ⟨⟨"u"⟩, 6⟩ (.neighborhood dwelling)).1.map (·.elapsed) =
      .error (.access (.executionTimeout 100)) ∧
    branching.TimeBounded ⟨⟨"u"⟩, 6⟩ .neighborhood dwelling 10 ∧
    branching.TimeBounded ⟨⟨"u"⟩, 6⟩ .aggregate dwelling 10 := by
  have hbounded := time_checked_at_arcs (q := dwelling) rfl rfl branching ⟨⟨"u"⟩, 6⟩
  refine ⟨rfl, rfl, ?_, hbounded.1, hbounded.2.1⟩
  rw [dwelling, sleep_eq]
  set_option maxRecDepth 10000 in
  cbv

/-- A single arc. -/
def oneArc : Session := (link "a" "b").after ⟨⟨"m"⟩, 5⟩ (.new {} .new)

/-- A query with a bound may answer after its time is up: nothing looks at the time once the only
arc is ranked. -/
theorem not_elapsed_le_timeout :
    ¬ ∀ (s : Session) (who : Caller) (q : Query) (limit : Nat) (r : QueryResult),
      Reach Operation.Live s → q.boundsTime = true → q.timeout = some limit →
      (s.ask who (.neighborhood q)).1 = .ok r → r.elapsed ≤ limit := by
  intro hclaim
  have hreach : Reach Operation.Live oneArc :=
    (Reach.start {} .new).step ⟨⟨"m"⟩, 5⟩ (link "a" "b") (by rfl)
  have helapsed : (oneArc.ask ⟨⟨"u"⟩, 6⟩ (.neighborhood dwelling)).1.map (·.elapsed) = .ok 100 := by
    rw [dwelling, sleep_eq]
    set_option maxRecDepth 10000 in
    cbv
  cases hanswer : (oneArc.ask ⟨⟨"u"⟩, 6⟩ (.neighborhood dwelling)).1 with
  | error e =>
    rw [hanswer] at helapsed
    cases helapsed
  | ok r =>
    have hshort : r.elapsed ≤ 10 := hclaim oneArc ⟨⟨"u"⟩, 6⟩ dwelling 10 r hreach rfl rfl hanswer
    rw [hanswer] at helapsed
    have hlong : r.elapsed = 100 := Except.ok.inj helapsed
    omega

end Arcbase
