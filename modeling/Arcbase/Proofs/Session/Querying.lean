import Arcbase.Proofs.Query.Walking
import Arcbase.Proofs.Session.Reach
import Arcbase.Query.Result
import Mathlib
set_option autoImplicit false

/-!
# Querying

What a query finds is what it collects by its own terms (`found_eq_collected`), on every
two-sided store and for every thread to which the vertices on the way are available.  They
always are to a thread that holds nothing while nothing is written: a chain of levels is
planned only if it is shorter than the limit on nesting (`available_of_idle`).
-/

namespace Arcbase

open Guard Store Arcbase.Action

/-- Whether a thread can hold all vertices that a query reaches from its anchor. -/
def Query.Available (q : Query) (s : Store) (G : List Guard) (me : Thread) (a : CellId) : Prop :=
  s.CanRead G me [] a ∧ s.Available G me q.levels 1 [a] a

variable {s : Store} {G : List Guard} {q : Query} {p : Plan} {who : Caller} {a : CellId}

/-- A thread that holds nothing can read what nobody writes, as long as its path is shorter
than the limit. -/
theorem canRead_of_idle {me : Thread} (hidle : ∀ g ∈ G, g.thread ≠ me)
    (hread : ∀ g ∈ G, g.hold = .reader) {path : List CellId}
    (hpath : path.length < s.locks.limit) (c : CellId) : s.CanRead G me path c := by
  constructor
  · intro g hg hw
    rw [hread g (mem_onSlot.1 hg).1] at hw
    cases hw
  · rw [depth_eq_zero_iff.2 fun g hg => hidle g (mem_onSlot.1 hg).1, Nat.zero_add]
    exact Nat.lt_of_le_of_lt List.count_le_length hpath

/-- Its way may go through as many levels as the limit leaves room for. -/
theorem available_of_fits {me : Thread} (hidle : ∀ g ∈ G, g.thread ≠ me)
    (hread : ∀ g ∈ G, g.hold = .reader) {levels : List Level} (depth : Nat) {path : List CellId}
    (hfits : path.length + levels.length ≤ s.locks.limit) (a : CellId) :
    s.Available G me levels depth path a := by
  induction levels generalizing depth path a with
  | nil => trivial
  | cons l below ih =>
    rw [List.length_cons] at hfits
    intro _ x _
    refine ⟨canRead_of_idle hidle hread (by omega) _, fun _ => ih (depth + 1) ?_ _⟩
    rw [List.length_cons]
    omega

/-- To a thread that holds nothing, everything that a planned query reaches is available
while nothing is written. -/
theorem available_of_idle (hplan : q.plan s = .ok p) {me : Thread}
    (hidle : ∀ g ∈ G, g.thread ≠ me) (hread : ∀ g ∈ G, g.hold = .reader) (a : CellId) :
    q.Available s G me a := by
  have hdepth : 1 + q.nested.length < s.locks.limit := (serves_of_plan hplan).depth
  constructor
  · refine canRead_of_idle hidle hread ?_ a
    rw [List.length_nil]
    omega
  · refine available_of_fits hidle hread 1 ?_ a
    simp only [Query.levels, List.length_cons, List.length_nil]
    omega

/-- The walk of a plan tells what its query collects. -/
theorem answers_walk (hs : s.TwoSided) (hplan : q.plan s = .ok p) (hfree : q.boundsTime = false)
    (hsteady : q.Steady) (hanchor : s.lookup q.anchor = some a) :
    Answers s G (p.walk who) fun r => match r with
      | .ok w => w.pool = q.collected s a
      | .error _ => ¬ q.Available s G who.thread a := by
  have hserves := serves_of_plan hplan
  have hkey : s.lookupKey (.of q.anchor) = some a := (Option.filter_eq_some_iff.1 hanchor).1
  have ha : a ∈ s.registered := AssocMap.mem_values_iff.2 ⟨_, hkey⟩
  unfold Plan.walk
  refine answers_bind (answers_find (hserves.anchor ▸ hanchor)) (fun e he => nomatch he)
    fun c hc => ?_
  cases hc
  refine answers_holding (fun e hcannot havail => hcannot havail.1) fun g hme hslot => ?_
  have hlevels := answers_walkLevels (G := G) hs (hserves.rank ▸ hsteady.1)
    (hserves.timeLimit hfree) hserves.levels hsteady.2 1 (List.forall_mem_singleton.2 hme) ha {}
  rw [List.map_singleton, hslot] at hlevels
  refine answers_bind hlevels (fun e he havail => he havail.2) fun y hy => ?_
  refine answers_pure ?_
  simpa [Query.collected, hserves.rank] using hy.2

/-- A query finds exactly what it collects: the pool of a walk that comes to its end holds
that and nothing else, and a walk to which everything on its way is available does come to
its end, with a result that is this pool, sorted and cut to the window. -/
theorem found_eq_collected (hs : s.TwoSided) (hlocks : s.locks.Accounts G)
    (hplan : q.plan s = .ok p) (hfree : q.boundsTime = false) (hsteady : q.Steady)
    (hanchor : s.lookup q.anchor = some a) (who : Caller) :
    (∀ w s', (p.walk who).run s = (.ok w, s') → w.pool = q.collected s a) ∧
      (q.Available s G who.thread a → ∃ w t,
        (p.walk who).run s = (.ok w, { s with locks := t }) ∧ w.pool = q.collected s a ∧
        ∃ result, (p.execute who).run s = (.ok result, { s with locks := t }) ∧
          result.total = (q.collected s a).length ∧
          result.entries =
            p.window ((q.collected s a).mergeSort (Entry.before p.sortBy p.direction))) := by
  obtain ⟨r, t, hrun, _, _, htells⟩ :=
    answers_walk hs hplan hfree hsteady hanchor s.locks (.refl _) hlocks
  have hwalk : (p.walk who).run s = (r, { s with locks := t }) := hrun
  constructor
  · intro w s' hw
    rw [hwalk] at hw
    cases hw
    exact htells
  · intro havail
    cases r with
    | error e => exact absurd havail htells
    | ok w =>
      refine ⟨w, t, hwalk, htells, ?_⟩
      rw [Plan.execute, run_bind, hwalk]
      exact ⟨_, rfl, by rw [htells], by rw [htells]⟩

/-- Connects a vertex to another one. -/
def link (i t : String) : Operation :=
  .ask (.connect { initial := i, arc := { relationship := "r" }, terminals := .one t })

/-- Two arcs from one vertex, of which one goes on from its terminal. -/
def branching : Session :=
  (link "b" "c").after ⟨⟨"m"⟩, 5⟩
    ((link "a" "e").after ⟨⟨"m"⟩, 5⟩ ((link "a" "b").after ⟨⟨"m"⟩, 5⟩ (.new {} .new)))

theorem reach_branching : Reach Operation.Live branching := by
  have hlive : ∀ i t, (link i t).Live := fun _ _ => by rfl
  have hempty : Reach Operation.Live (.new {} .new) := .start {} .new
  have hfirst := hempty.step ⟨⟨"m"⟩, 5⟩ (link "a" "b") (hlive "a" "b")
  have hsecond := hfirst.step ⟨⟨"m"⟩, 5⟩ (link "a" "e") (hlive "a" "e")
  exact hsecond.step ⟨⟨"m"⟩, 5⟩ (link "b" "c") (hlive "b" "c")

/-- The arcs that go on. -/
def goingOn : Query :=
  { anchor := "a", root := { arc := .along "r" .out }
    nested := [{ arc := .along "r" .out, collect := .none }] }

/-- The arc that goes on is found, the other one is not. -/
theorem found_eq_collected_branching : ∃ p w t, goingOn.plan branching.store = .ok p ∧
    (p.walk ⟨⟨"u"⟩, 6⟩).run branching.store = (.ok w, { branching.store with locks := t }) ∧
    w.pool.map (fun e => (e.vertex.id, e.depth)) = [("b", 1)] := by
  have hsound := reach_branching.sound_live
  have hsteady : goingOn.Steady := by
    constructor <;> simp [goingOn, Query.levels, Level.Steady]
  obtain ⟨hanchor, hplanned, hfound, hnone⟩ :
      branching.store.lookup goingOn.anchor = some 0 ∧
      (goingOn.plan branching.store).isOk = true ∧
      (goingOn.collected branching.store 0).map (fun e => (e.vertex.id, e.depth)) = [("b", 1)] ∧
      branching.guards = [] := by
    set_option maxRecDepth 10000 in
    cbv
  cases hplan : goingOn.plan branching.store with
  | error e => simp [hplan, Except.isOk, Except.toBool] at hplanned
  | ok p =>
    have havail : goingOn.Available branching.store branching.guards ⟨"u"⟩ 0 := by
      refine available_of_idle hplan ?_ ?_ 0 <;> simp [hnone]
    obtain ⟨w, t, hwalk, hpool, _⟩ := (found_eq_collected hsound.store.twoSided
      hsound.guarded.accounts hplan rfl hsteady hanchor ⟨⟨"u"⟩, 6⟩).2 havail
    exact ⟨p, w, t, rfl, hwalk, hpool ▸ hfound⟩

end Arcbase
