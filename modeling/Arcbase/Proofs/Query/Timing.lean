import Arcbase.Proofs.Action.Orderly
import Arcbase.Query.Walk
import Mathlib.Data.List.Induction
set_option autoImplicit false

/-!
# The time that a walk takes

A failed walk does not tell how long it took.  To speak of the time of any walk, it is carried
out once more under watch (`Watching.walk`): every arc that is taken up and every evaluation
is noted down, in a *course* that outlasts failures.  Nothing else is different
(`Watching.shows_walk`).

The time is compared with the bound only where an arc is taken up.  So a walk with a bound goes
the way of the walk without one as long as no arc is taken up late, and fails where the first one
is (`Watching.compares_walk`).
-/

namespace Arcbase

open Store Arcbase.Action

/-! ## Courses -/

/-- What is noted down of a walk. -/
inductive Moment where
  /-- An arc is taken up; the time is compared with the bound here. -/
  | arc
  | evaluation (milliseconds : Nat)
  deriving DecidableEq, Repr

namespace Moment

def milliseconds : Moment → Nat
  | arc => 0
  | evaluation n => n

/-- The time that went by in a course. -/
def total : List Moment → Nat
  | [] => 0
  | m :: rest => m.milliseconds + total rest

/-- No arc of the course was taken up after the limit. -/
def InTime (limit : Nat) (course : List Moment) : Prop :=
  ∀ before after, course = before ++ arc :: after → total before ≤ limit

variable {limit : Nat} {course : List Moment}

@[simp] theorem total_append (course later : List Moment) :
    total (course ++ later) = total course + total later := by
  induction course with
  | nil => exact (Nat.zero_add _).symm
  | cons m rest ih => rw [List.cons_append, total, total, ih, Nat.add_assoc]

@[simp] theorem total_arc : total [arc] = 0 := rfl

@[simp] theorem total_evaluation (n : Nat) : total [evaluation n] = n := rfl

theorem inTime_nil : InTime limit [] := by
  intro before after h
  cases before <;> cases h

/-- What is noted last matters if it is an arc. -/
theorem inTime_append_singleton {m : Moment} :
    InTime limit (course ++ [m]) ↔ InTime limit course ∧ (m = arc → total course ≤ limit) := by
  constructor
  · intro h
    refine ⟨fun before after hbefore => h before (after ++ [m]) ?_, ?_⟩
    · rw [hbefore, List.append_assoc, List.cons_append]
    · rintro rfl
      exact h course [] rfl
  · rintro ⟨h, hlast⟩ before after hbefore
    cases after using List.reverseRecOn with
    | nil =>
      obtain ⟨rfl, hm⟩ := List.append_inj' hbefore rfl
      exact hlast (List.cons.inj hm).1
    | append_singleton rest m' _ =>
      rw [← List.cons_append, ← List.append_assoc] at hbefore
      obtain ⟨rfl, -⟩ := List.append_inj' hbefore rfl
      exact h before rest rfl

/-- If no arc was taken up after the limit, what overruns it came after the last one. -/
theorem InTime.exists_split (h : InTime limit course) :
    ∃ before after, course = before ++ after ∧ total before ≤ limit ∧ arc ∉ after := by
  induction course using List.reverseRecOn with
  | nil => exact ⟨[], [], rfl, Nat.zero_le _, List.not_mem_nil⟩
  | append_singleton course m ih =>
    obtain ⟨hcourse, hlast⟩ := inTime_append_singleton.1 h
    cases m with
    | arc =>
      refine ⟨course ++ [arc], [], (List.append_nil _).symm, ?_, List.not_mem_nil⟩
      rw [total_append, total_arc, Nat.add_zero]
      exact hlast rfl
    | evaluation n =>
      obtain ⟨before, after, rfl, hbefore, hafter⟩ := ih hcourse
      refine ⟨before, after ++ [evaluation n], List.append_assoc _ _ _, hbefore, ?_⟩
      simpa using hafter

end Moment

open Moment (total InTime)

/-- A plan with another bound on the running time. -/
def Plan.limited (p : Plan) (timeLimit : Option Nat) : Plan := { p with timeLimit }

/-! ## Actions under watch -/

/-- A store with the course so far. -/
structure Watched where
  store : Store
  course : List Moment := []

/-- An operation on a store that is watched. -/
abbrev Watching (α : Type) := ExceptT Error (StateM Watched) α

namespace Watching

variable {α β : Type}

def run (a : Watching α) (v : Watched) : Except Error α × Watched := StateT.run (ExceptT.run a) v

def ofFun (f : Watched → Except Error α × Watched) : Watching α := ExceptT.mk f

def note (m : Moment) : Watching Unit :=
  ofFun fun v => (.ok (), { v with course := v.course ++ [m] })

/-- An action of which nothing is noted. -/
def plain (a : Action α) : Watching α :=
  ofFun fun v =>
    let (r, store) := a.run v.store
    (r, { v with store })

/-- Runs an action while a cell is held. -/
def holding (who : Caller) (c : CellId) (mode : LockMode) (body : Watching α) : Watching α := do
  let g ← plain (acquire who c mode)
  ofFun fun v =>
    let (r, v) := body.run v
    (r, { v with store := v.store.drop g })

theorem run_bind (a : Watching α) (f : α → Watching β) (v : Watched) :
    (a >>= f).run v =
      match a.run v with
      | (.ok x, v) => (f x).run v
      | (.error e, v) => (.error e, v) := by
  simp only [run, ExceptT.run_bind, StateT.run_bind]
  generalize StateT.run (ExceptT.run a) v = r
  obtain ⟨r, v'⟩ := r
  cases r <;> rfl

/-! ## Walks under watch -/

/-- An evaluation takes its time whether it fails or not. -/
def evaluate (w : Walk) (e : Expression) (c : Candidate) : Watching (Binary64 × Walk) := do
  note (.evaluation (e.evaluate c w.registers).elapsed)
  plain (Action.ofExcept (w.evaluate e c))

def passes (w : Walk) (condition : Option Expression) (c : Candidate) : Watching (Bool × Walk) :=
  match condition with
  | none => pure (true, w)
  | some e => do
    let (x, w) ← evaluate w e c
    return (truthy x, w)

def collectCandidate (w : Walk) (policy : CollectPolicy) (rank : Option Expression)
    (c : Candidate) : Watching Walk := do
  if policy = .collect then
    match rank with
    | none => return w.collect { arc := c.arc, vertex := c.vertex, depth := c.depth, rank := none }
    | some e =>
      let (x, w) ← evaluate w e c
      return w.collect { arc := c.arc, vertex := c.vertex, depth := c.depth, rank := some x }
  else return w

/-- What is walked beneath a candidate's vertex, under watch. -/
abbrev Descent := CellId → Walk → Watching (Bool × Walk)

def consider (level : PlannedLevel) (rank : Option Expression) (beneath : Descent)
    (neighbor : CellId) (c : Candidate) (w : Walk) : Watching (Bool × Walk) := do
  let mark := w.pool.length
  let (passed, w) ← passes w level.predicate c
  if !passed then return (false, w)
  let w ← collectCandidate w level.collect rank c
  let (matched, w) ← beneath neighbor w
  if !matched then return (false, w.truncate mark)
  let (passed, w) ← passes w level.postFilter c
  return if passed then (true, w) else (false, w.truncate mark)

def visit (level : PlannedLevel) (who : Caller) (plan : Plan) (beneath : Descent)
    (anchor : CellId) (depth : Nat) (x : SeenArc) (w : Walk) : Watching (Bool × Walk) := do
  let (key, direction, stored) := x
  note .arc
  plain (Action.ofExcept (w.checkTime plan.timeLimit))
  let w := { w with visitedArcs := w.visitedArcs + 1 }
  match ← plain (read (·.lookupKey key)) with
  | none => return (false, w)
  | some neighbor =>
    holding who neighbor .readonly do
      let w := { w with visitedVertices := w.visitedVertices + 1 }
      let s ← plain (read id)
      if level.allowsVertex s neighbor then
        consider level plan.rank beneath neighbor
          (PlannedLevel.candidate s anchor neighbor direction stored depth) w
      else return (false, w)

def visitAll (level : PlannedLevel) (visit : SeenArc → Walk → Watching (Bool × Walk)) :
    List SeenArc → Bool → Walk → Watching (Bool × Walk)
  | [], matched, w => pure (matched, w)
  | x :: rest, matched, w => do
    let (survived, w) ← visit x w
    if survived && level.stopsAtMatch then return (true, w)
    visitAll level visit rest (matched || survived) w

def walkLevels (who : Caller) (plan : Plan) : List PlannedLevel → Nat → Descent
  | [], _ => fun _ w => pure (true, w)
  | level :: below, depth => fun anchor w => do
    let arcs ← plain (read fun s => level.arcsAround (s.data anchor))
    visitAll level
      (visit level who plan (walkLevels who plan below (depth + 1)) anchor depth) arcs false w

/-- Carries a plan out under watch. -/
def walk (p : Plan) (who : Caller) : Watching Walk := do
  let anchor ← plain (find p.anchor)
  holding who anchor .readonly do
    return (← walkLevels who p (p.root :: p.nested) 1 anchor {}).2

/-! ## Watching changes nothing -/

/-- The outcome and the store are those of an action. -/
def Shows (a : Watching α) (b : Action α) : Prop :=
  ∀ v, b.run v.store = ((a.run v).1, (a.run v).2.store)

theorem shows_pure (x : α) : Shows (pure x) (pure x) := fun _ => rfl

theorem shows_plain (a : Action α) : Shows (plain a) a := fun _ => rfl

theorem shows_note {m : Moment} {a : Watching α} {b : Action α} (h : Shows a b) :
    Shows (note m >>= fun _ => a) b := by
  intro v
  rw [run_bind]
  exact h { v with course := v.course ++ [m] }

theorem shows_bind {a : Watching α} {b : Action α} {f : α → Watching β} {g : α → Action β}
    (h : Shows a b) (hf : ∀ x, Shows (f x) (g x)) : Shows (a >>= f) (b >>= g) := by
  intro v
  rw [run_bind, Action.run_bind, h v]
  cases hrun : a.run v with
  | mk r v' =>
    cases r with
    | error e => rfl
    | ok x => exact hf x v'

theorem shows_holding {a : Watching α} {b : Action α} (h : Shows a b) (who : Caller) (c : CellId)
    (mode : LockMode) : Shows (holding who c mode a) (Action.holding who c mode b) := by
  refine shows_bind (shows_plain _) fun g v => ?_
  have hbody := h v
  simp only [ensuring, run_ofFun, hbody]
  rfl

theorem shows_evaluate (w : Walk) (e : Expression) (c : Candidate) :
    Shows (evaluate w e c) (Action.ofExcept (w.evaluate e c)) := shows_note (shows_plain _)

theorem shows_passes (w : Walk) (condition : Option Expression) (c : Candidate) :
    Shows (passes w condition c) (Action.ofExcept (w.passes condition c)) := by
  cases condition with
  | none => exact shows_pure _
  | some e =>
    have hmap : Action.ofExcept (w.passes (some e) c) =
        Action.ofExcept (w.evaluate e c) >>= fun x => pure (truthy x.1, x.2) := by
      rw [Walk.passes]
      cases w.evaluate e c <;> rfl
    rw [hmap]
    exact shows_bind (shows_evaluate w e c) fun _ => shows_pure _

theorem shows_collectCandidate (w : Walk) (policy : CollectPolicy) (rank : Option Expression)
    (c : Candidate) :
    Shows (collectCandidate w policy rank c)
      (Action.ofExcept (w.collectCandidate policy rank c)) := by
  unfold collectCandidate Walk.collectCandidate
  by_cases hcollect : policy = .collect
  · rw [if_pos hcollect, if_pos hcollect]
    cases rank with
    | none => exact shows_pure _
    | some e =>
      have hbind : ∀ f : Binary64 × Walk → Walk,
          Action.ofExcept (w.evaluate e c >>= fun x => pure (f x)) =
            Action.ofExcept (w.evaluate e c) >>= fun x => pure (f x) := by
        intro f
        cases w.evaluate e c <;> rfl
      refine Eq.mpr (congrArg _ (hbind _)) ?_
      exact shows_bind (shows_evaluate w e c) fun _ => shows_pure _
  · rw [if_neg hcollect, if_neg hcollect]
    exact shows_pure _

variable {level : PlannedLevel} {who : Caller} {plan : Plan}

theorem shows_consider {rank : Option Expression} {beneath : Descent} {beneath' : Arcbase.Descent}
    {neighbor : CellId} (hb : ∀ w, Shows (beneath neighbor w) (beneath' neighbor w))
    (c : Candidate) (w : Walk) :
    Shows (consider level rank beneath neighbor c w)
      (level.consider rank beneath' neighbor c w) := by
  refine shows_bind (shows_passes w level.predicate c) fun ⟨passed, w₁⟩ => ?_
  cases passed with
  | false => exact shows_pure _
  | true =>
    refine shows_bind (shows_collectCandidate w₁ level.collect rank c) fun w₂ => ?_
    refine shows_bind (hb w₂) fun ⟨matched, w₃⟩ => ?_
    cases matched with
    | false => exact shows_pure _
    | true => exact shows_bind (shows_passes w₃ level.postFilter c) fun _ => shows_pure _

theorem shows_visit {beneath : Descent} {beneath' : Arcbase.Descent}
    (hb : ∀ c w, Shows (beneath c w) (beneath' c w)) (anchor : CellId) (depth : Nat)
    (x : SeenArc) (w : Walk) :
    Shows (visit level who plan beneath anchor depth x w)
      (level.visit who plan beneath' anchor depth x w) := by
  refine shows_note (shows_bind (shows_plain _) fun _ => ?_)
  refine shows_bind (shows_plain _) fun found => ?_
  cases found with
  | none => exact shows_pure _
  | some neighbor =>
    refine shows_holding (shows_bind (shows_plain _) fun s => ?_) who neighbor .readonly
    dsimp only
    split
    · exact shows_consider (hb neighbor) _ _
    · exact shows_pure _

theorem shows_visitAll {visit : SeenArc → Walk → Watching (Bool × Walk)}
    {visit' : SeenArc → Walk → Action (Bool × Walk)}
    (hvisit : ∀ x w, Shows (visit x w) (visit' x w)) (arcs : List SeenArc) (matched : Bool)
    (w : Walk) :
    Shows (visitAll level visit arcs matched w) (level.visitAll visit' arcs matched w) := by
  induction arcs generalizing matched w with
  | nil => exact shows_pure _
  | cons x rest ih =>
    refine shows_bind (hvisit x w) fun ⟨survived, w₁⟩ => ?_
    dsimp only
    split
    · exact shows_pure _
    · exact ih _ w₁

theorem shows_walkLevels (levels : List PlannedLevel) (depth : Nat) (anchor : CellId) (w : Walk) :
    Shows (walkLevels who plan levels depth anchor w)
      (Arcbase.walkLevels who plan levels depth anchor w) := by
  induction levels generalizing depth anchor w with
  | nil => exact shows_pure _
  | cons level below ih =>
    refine shows_bind (shows_plain _) fun arcs => ?_
    exact shows_visitAll (fun x w => shows_visit (fun c w => ih (depth + 1) c w) anchor depth x w)
      arcs false w

/-- A walk under watch is the walk. -/
theorem shows_walk (p : Plan) (who : Caller) : Shows (walk p who) (p.walk who) := by
  refine shows_bind (shows_plain _) fun anchor => ?_
  refine shows_holding ?_ who anchor .readonly
  exact shows_bind (shows_walkLevels _ 1 anchor {}) fun _ => shows_pure _

/-! ## Failures that concern no time -/

/-- An outcome that does not fail for lack of time. -/
def Unhurried (r : Except Error α) : Prop := ∀ n, r ≠ .error (.access (.executionTimeout n))

theorem unhurried_ok (x : α) : Unhurried (.ok x) := by
  intro n he
  cases he

theorem Unhurried.map {r : Except Error α} (h : Unhurried r) (f : α → β) :
    Unhurried (r.map f) := by
  cases r with
  | error e => exact fun n he => h n (congrArg Except.error (Except.error.inj he))
  | ok x => exact unhurried_ok (f x)

theorem unhurried_find (id : String) (s : Store) : Unhurried ((find id).run s).1 := by
  intro n he
  rw [run_find] at he
  cases hlook : s.lookup id <;> rw [hlook] at he <;> cases he

theorem ne_executionTimeout_of_read {r : LockRecord} {me : Thread} {bound : Nat} {label : String}
    {e : AccessError} (h : r.read me bound label = .error e) (n : Nat) :
    e ≠ .executionTimeout n := by
  rintro rfl
  unfold LockRecord.read LockRecord.reenter at h
  split at h
  · split at h <;> cases h
  · split at h
    · split at h <;> cases h
    · split at h <;> cases h

theorem unhurried_acquire (who : Caller) (c : CellId) (s : Store) :
    Unhurried ((acquire who c .readonly).run s).1 := by
  intro n he
  rw [acquire, run_ofFun] at he
  cases hread : (s.locks.record c).read who.thread s.locks.limit (s.lockItem c).label with
  | error cause =>
    have hrefused : s.locks.acquire who.thread (s.lockItem c) .readonly = .error cause := by
      change ((s.locks.record c).read who.thread s.locks.limit (s.lockItem c).label >>= fun x => _)
        >>= _ = _
      rw [hread]
      rfl
    rw [hrefused] at he
    exact ne_executionTimeout_of_read hread n (Error.access.inj (Except.error.inj he))
  | ok p =>
    have hgiven : s.locks.acquire who.thread (s.lockItem c) .readonly =
        .ok (⟨who.thread, s.lockItem c, p.1⟩, s.locks.setRecord c p.2) := by
      change ((s.locks.record c).read who.thread s.locks.limit (s.lockItem c).label >>= fun x => _)
        >>= _ = _
      rw [hread]
      rfl
    rw [hgiven] at he
    cases he

theorem unhurried_evaluate (w : Walk) (e : Expression) (c : Candidate) :
    Unhurried (w.evaluate e c) := by
  intro n he
  unfold Walk.evaluate at he
  dsimp only at he
  split at he
  · cases he
  next cause _ => cases cause <;> cases he

/-! ## Walks with a bound and without -/

/-- What a limit makes of an outcome: the same, if no arc was taken up late.  Otherwise it ends
where the first such arc is taken up, with the time gone by till then. -/
inductive Limits (limit : Nat) : Except Error α × Watched → Except Error α × Watched → Prop where
  | kept {r : Except Error α} {v : Watched} (inTime : InTime limit v.course) :
    Limits limit (r, v) (r, v)
  | stopped {r : Except Error α} {v v' : Watched} (before after : List Moment)
      (course : v.course = before ++ .arc :: after) (inTime : InTime limit before)
      (late : limit < total before) (course' : v'.course = before ++ [.arc]) :
    Limits limit (r, v) (.error (.access (.executionTimeout (total before))), v')

variable {limit : Nat}

theorem Limits.map {free limited : Except Error α × Watched} (h : Limits limit free limited)
    (f : α → β) : Limits limit (free.1.map f, free.2) (limited.1.map f, limited.2) := by
  cases h with
  | kept inTime => exact .kept inTime
  | stopped before after hcourse inTime late hcourse' =>
    exact .stopped before after hcourse inTime late hcourse'

/-- Under a limit all is the same, or time is up at an arc. -/
theorem Limits.same_or_stopped {free limited : Except Error α × Watched}
    (h : Limits limit free limited) :
    (limited = free ∧ InTime limit free.2.course) ∨
      limited.1 = .error (.access (.executionTimeout (total limited.2.course))) ∧
        limit < total limited.2.course := by
  cases h with
  | kept inTime => exact .inl ⟨rfl, inTime⟩
  | stopped before after _ _ late hcourse' =>
    have htotal : total (before ++ [.arc]) = total before := by
      rw [Moment.total_append, Moment.total_arc, Nat.add_zero]
    rw [hcourse', htotal]
    exact .inr ⟨rfl, late⟩

/-- An outcome without a limit beside the one with it, both after a course. -/
structure Compared (limit : Nat) (course : List Moment) (Q : α → List Moment → Prop)
    (free limited : Except Error α × Watched) : Prop where
  onward : course <+: free.2.course
  unbounded : Unhurried free.1
  told : ∀ x, free.1 = .ok x → Q x free.2.course
  limits : InTime limit course → Limits limit free limited

theorem Compared.told_limited {course : List Moment} {Q : α → List Moment → Prop}
    {free limited : Except Error α × Watched} (h : Compared limit course Q free limited)
    (hin : InTime limit course) : ∀ x, limited.1 = .ok x → Q x limited.2.course := by
  intro x hx
  obtain ⟨rfl, -⟩ | ⟨hstopped, -⟩ := (h.limits hin).same_or_stopped
  · exact h.told x hx
  · cases hx.symm.trans hstopped

/-- The same of actions, on every store. -/
def Compares (limit : Nat) (course : List Moment) (free limited : Watching α)
    (Q : α → List Moment → Prop) : Prop :=
  ∀ s, Compared limit course Q (free.run ⟨s, course⟩) (limited.run ⟨s, course⟩)

variable {course : List Moment}

theorem compares_pure {x : α} {Q : α → List Moment → Prop} (h : Q x course) :
    Compares limit course (pure x) (pure x) Q := by
  refine fun s => ⟨List.prefix_rfl, unhurried_ok x, fun y hy => ?_, fun hin => .kept hin⟩
  obtain rfl := Except.ok.inj hy
  exact h

theorem compares_plain {a : Action α} {Q : α → List Moment → Prop}
    (hnever : ∀ s, Unhurried (a.run s).1)
    (h : ∀ s x, (a.run s).1 = .ok x → Q x course) :
    Compares limit course (plain a) (plain a) Q := fun s =>
  ⟨List.prefix_rfl, hnever s, h s, fun hin => .kept hin⟩

theorem compares_note (n : Nat) :
    Compares limit course (note (.evaluation n)) (note (.evaluation n))
      fun _ later => later = course ++ [.evaluation n] := fun _ =>
  ⟨List.prefix_append _ _, unhurried_ok (), fun _ _ => rfl, fun hin =>
    .kept (Moment.inTime_append_singleton.2 ⟨hin, fun h => by cases h⟩)⟩

theorem compares_bind {a b : Watching α} {f g : α → Watching β} {M : α → List Moment → Prop}
    {Q : β → List Moment → Prop} (h : Compares limit course a b M)
    (hf : ∀ x later, M x later → Compares limit later (f x) (g x) Q) :
    Compares limit course (a >>= f) (b >>= g) Q := by
  intro s
  obtain ⟨honward, hnever, htold, hlimits⟩ := h s
  rw [run_bind, run_bind]
  generalize a.run ⟨s, course⟩ = free at *
  generalize b.run ⟨s, course⟩ = limited at *
  obtain ⟨r, v⟩ := free
  cases r with
  | error e =>
    refine ⟨honward, fun n he => hnever n (congrArg Except.error (Except.error.inj he)),
      fun x hx => ?_, fun hin => ?_⟩
    · cases hx
    · cases hlimits hin with
      | kept inTime => exact .kept inTime
      | stopped before after hcourse inTime late hcourse' =>
        exact .stopped before after hcourse inTime late hcourse'
  | ok x =>
    obtain ⟨honward', hnever', htold', hlimits'⟩ := hf x v.course (htold x rfl) v.store
    refine ⟨honward.trans honward', hnever', htold', fun hin => ?_⟩
    cases hlimits hin with
    | kept inTime => exact hlimits' inTime
    | stopped before after hcourse inTime late hcourse' =>
      -- The free action goes on, which the limited one did not come to.
      obtain ⟨rest, hrest⟩ := honward'
      refine .stopped before (after ++ rest) ?_ inTime late hcourse'
      change ((f x).run v).2.course = _
      rw [← hrest, hcourse, List.append_assoc, List.cons_append]

/-- Where an arc is taken up the time is compared with the limit. -/
theorem compares_checkTime {w : Walk} (hw : w.elapsed = total course) {f g : Unit → Watching β}
    {Q : β → List Moment → Prop} (h : Compares limit (course ++ [.arc]) (f ()) (g ()) Q) :
    Compares limit course
      (note .arc >>= fun _ => plain (Action.ofExcept (w.checkTime none)) >>= f)
      (note .arc >>= fun _ => plain (Action.ofExcept (w.checkTime (some limit))) >>= g) Q := by
  intro s
  have hrun : ∀ (bound : Option Nat) (k : Unit → Watching β),
      (note .arc >>= fun _ => plain (Action.ofExcept (w.checkTime bound)) >>= k).run ⟨s, course⟩ =
        match w.checkTime bound with
        | .ok _ => (k ()).run ⟨s, course ++ [.arc]⟩
        | .error e => (.error e, ⟨s, course ++ [.arc]⟩) := by
    intro bound k
    rw [run_bind]
    change (plain (Action.ofExcept (w.checkTime bound)) >>= k).run ⟨s, course ++ [.arc]⟩ = _
    rw [run_bind]
    cases w.checkTime bound <;> rfl
  obtain ⟨honward, hnever, htold, hlimits⟩ := h s
  rw [hrun, hrun]
  refine ⟨(List.prefix_append _ _).trans honward, hnever, htold, fun hin => ?_⟩
  by_cases hlate : limit < w.elapsed
  · obtain ⟨rest, hrest⟩ := honward
    have hfails : w.checkTime (some limit) =
        .error (.access (.executionTimeout (total course))) := by
      rw [Walk.checkTime, if_pos hlate, hw]
    rw [hfails]
    refine .stopped course rest ?_ hin (hw ▸ hlate) rfl
    change ((f ()).run ⟨s, course ++ [.arc]⟩).2.course = _
    rw [← hrest, List.append_assoc, List.singleton_append]
  · have hpasses : w.checkTime (some limit) = .ok () := if_neg hlate
    rw [hpasses]
    have hontime : total course ≤ limit := hw ▸ Nat.le_of_not_lt hlate
    exact hlimits (Moment.inTime_append_singleton.2 ⟨hin, fun _ => hontime⟩)

/-- A limit does the same whatever becomes of the stores afterwards. -/
theorem Limits.afterwards {free limited : Except Error α × Watched} (h : Limits limit free limited)
    (f : Store → Store) :
    Limits limit (free.1, { free.2 with store := f free.2.store })
      (limited.1, { limited.2 with store := f limited.2.store }) := by
  cases h with
  | kept inTime => exact .kept inTime
  | stopped before after hcourse inTime late hcourse' =>
    exact .stopped before after hcourse inTime late hcourse'

theorem compares_holding {a b : Watching α} {Q : α → List Moment → Prop}
    (h : Compares limit course a b Q) (who : Caller) (c : CellId) :
    Compares limit course (holding who c .readonly a) (holding who c .readonly b) Q := by
  refine compares_bind (M := fun _ later => later = course)
    (compares_plain (unhurried_acquire who c) fun _ _ _ => rfl) fun g later hlater s => ?_
  subst hlater
  obtain ⟨honward, hnever, htold, hlimits⟩ := h s
  exact ⟨honward, hnever, htold, fun hin => (hlimits hin).afterwards (·.drop g)⟩

/-! ## The stages of a walk -/

/-- The time that a walk tells is that of its course. -/
abbrev KeepsTime (y : α × Walk) (course : List Moment) : Prop := y.2.elapsed = total course

theorem compares_evaluate {w : Walk} (hw : w.elapsed = total course) (e : Expression)
    (c : Candidate) :
    Compares limit course (evaluate w e c) (evaluate w e c) KeepsTime := by
  refine compares_bind (compares_note _) fun _ later hlater => ?_
  subst hlater
  refine compares_plain (fun _ => unhurried_evaluate w e c) fun _ x hx => ?_
  change w.evaluate e c = .ok x at hx
  unfold Walk.evaluate at hx
  dsimp only at hx
  split at hx
  · obtain rfl := Except.ok.inj hx
    rw [KeepsTime, Moment.total_append, Moment.total_evaluation, ← hw]
  · cases hx

theorem compares_passes {w : Walk} (hw : w.elapsed = total course)
    (condition : Option Expression) (c : Candidate) :
    Compares limit course (passes w condition c) (passes w condition c) KeepsTime := by
  cases condition with
  | none => exact compares_pure hw
  | some e =>
    exact compares_bind (compares_evaluate hw e c) fun _ _ hlater => compares_pure hlater

theorem compares_collectCandidate {w : Walk} (hw : w.elapsed = total course)
    (policy : CollectPolicy) (rank : Option Expression) (c : Candidate) :
    Compares limit course (collectCandidate w policy rank c) (collectCandidate w policy rank c)
      fun w' later => w'.elapsed = total later := by
  unfold collectCandidate
  split
  · cases rank with
    | none => exact compares_pure hw
    | some e =>
      exact compares_bind (compares_evaluate hw e c) fun _ _ hlater => compares_pure hlater
  · exact compares_pure hw

variable {beneath beneath' : Descent}

theorem compares_consider {rank : Option Expression} {neighbor : CellId}
    (hb : ∀ w later, w.elapsed = total later →
      Compares limit later (beneath neighbor w) (beneath' neighbor w) KeepsTime)
    (c : Candidate) {w : Walk} (hw : w.elapsed = total course) :
    Compares limit course (consider level rank beneath neighbor c w)
      (consider level rank beneath' neighbor c w) KeepsTime := by
  refine compares_bind (compares_passes hw level.predicate c) fun ⟨passed, w₁⟩ later₁ hw₁ => ?_
  cases passed with
  | false => exact compares_pure hw₁
  | true =>
    refine compares_bind (compares_collectCandidate hw₁ level.collect rank c)
      fun w₂ later₂ hw₂ => ?_
    refine compares_bind (hb w₂ later₂ hw₂) fun ⟨matched, w₃⟩ later₃ hw₃ => ?_
    cases matched with
    | false => exact compares_pure hw₃
    | true =>
      refine compares_bind (compares_passes hw₃ level.postFilter c)
        fun ⟨passed, w₄⟩ later₄ hw₄ => compares_pure ?_
      cases passed <;> exact hw₄

theorem compares_visit
    (hb : ∀ c w later, w.elapsed = total later →
      Compares limit later (beneath c w) (beneath' c w) KeepsTime)
    (anchor : CellId) (depth : Nat) (x : SeenArc) {w : Walk} (hw : w.elapsed = total course) :
    Compares limit course
      (visit level who (plan.limited none) beneath anchor depth x w)
      (visit level who (plan.limited (some limit)) beneath' anchor depth x w) KeepsTime := by
  refine compares_checkTime hw ?_
  have hnoted : w.elapsed = total (course ++ [.arc]) := by
    rw [Moment.total_append, Moment.total_arc, Nat.add_zero, hw]
  refine compares_bind (M := fun _ later => later = course ++ [.arc])
    (compares_plain (fun _ => unhurried_ok _) fun _ _ _ => rfl) fun found later hlater => ?_
  subst hlater
  cases found with
  | none => exact compares_pure hnoted
  | some neighbor =>
    refine compares_holding ?_ who neighbor
    refine compares_bind (M := fun _ later => later = course ++ [.arc])
      (compares_plain (fun _ => unhurried_ok _) fun _ _ _ => rfl) fun s later hlater => ?_
    subst hlater
    dsimp only
    split
    · exact compares_consider (hb neighbor) _ hnoted
    · exact compares_pure hnoted

theorem compares_visitAll {visit visit' : SeenArc → Walk → Watching (Bool × Walk)}
    (hvisit : ∀ x w later, w.elapsed = total later →
      Compares limit later (visit x w) (visit' x w) KeepsTime)
    (arcs : List SeenArc) (matched : Bool) {w : Walk} (hw : w.elapsed = total course) :
    Compares limit course (visitAll level visit arcs matched w)
      (visitAll level visit' arcs matched w) KeepsTime := by
  induction arcs generalizing matched w course with
  | nil => exact compares_pure hw
  | cons x rest ih =>
    refine compares_bind (hvisit x w course hw) fun ⟨survived, w₁⟩ later hw₁ => ?_
    dsimp only
    split
    · exact compares_pure hw₁
    · exact ih _ hw₁

theorem compares_walkLevels (levels : List PlannedLevel) (depth : Nat) (anchor : CellId) {w : Walk}
    (hw : w.elapsed = total course) :
    Compares limit course (walkLevels who (plan.limited none) levels depth anchor w)
      (walkLevels who (plan.limited (some limit)) levels depth anchor w) KeepsTime := by
  induction levels generalizing depth anchor w course with
  | nil => exact compares_pure hw
  | cons level below ih =>
    refine compares_bind (M := fun _ later => later = course)
      (compares_plain (fun _ => unhurried_ok _) fun _ _ _ => rfl) fun arcs later hlater => ?_
    subst hlater
    refine compares_visitAll (fun x w later hw => ?_) arcs false hw
    exact compares_visit (fun c w later hw => ih (depth + 1) c hw) anchor depth x hw

/-- A walk with a bound goes the way of the walk without one, up to the first arc that is taken
up late. -/
theorem compares_walk (p : Plan) (who : Caller) (limit : Nat) :
    Compares limit [] (walk (p.limited none) who) (walk (p.limited (some limit)) who)
      fun w course => w.elapsed = total course := by
  refine compares_bind (M := fun _ later => later = [])
    (compares_plain (unhurried_find _) fun _ _ _ => rfl) fun anchor later hlater => ?_
  subst hlater
  refine compares_holding ?_ who anchor
  exact compares_bind (compares_walkLevels (p.root :: p.nested) 1 anchor rfl)
    fun _ _ hw => compares_pure hw

end Watching

end Arcbase
