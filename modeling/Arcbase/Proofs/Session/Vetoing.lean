import Arcbase.Proofs.Query.Tracing
import Arcbase.Proofs.Session.Querying
import Mathlib
set_option autoImplicit false

/-!
# Vetoed candidates leave nothing behind but registers

A walk collects a candidate before it knows whether the levels below and the post-filter will
have it, and takes back what it collected if they do not.  So an entry that stays in the pool
comes with a *chain* of candidates, one for every level down to its own, each of which passed
everything that its level asks (`Chain`).  Only evaluations tell: the registers go through all
of them, those under vetoed candidates too (`vetoed_leave_nothing`).
-/

namespace Arcbase

open Guard Store Arcbase.Action

/-! ## Chains of survivors -/

namespace Visits

/-- The evaluations of a survivor and of what is beneath it stand together. -/
theorem evaluations_infix_of_mem_survivors {visits : Visits} {x : Visit × Visits}
    (h : x ∈ visits.survivors) :
    x.1.filter ++ x.1.rank ++ x.2.evaluations ++ x.1.post <:+: visits.evaluations := by
  induction visits with
  | none => cases h
  | add v beneath later _ ih =>
    rw [survivors] at h
    rw [evaluations]
    have hlater : later.evaluations <:+
        (v.filter ++ v.rank ++ beneath.evaluations ++ v.post) ++ later.evaluations :=
      List.suffix_append _ _
    split at h
    · rcases List.mem_cons.1 h with rfl | hm
      · exact (List.prefix_append _ _).isInfix
      · exact (ih hm).trans hlater.isInfix
    · exact (ih h).trans hlater.isInfix

end Visits

namespace Store

variable {s : Store} {rank : Option Expression} {level : PlannedLevel} {below : List PlannedLevel}
  {anchor : CellId} {depth : Nat} {arcs : List SeenArc} {visits : Visits}
  {link : Visit × Visits} {e : Entry}

/-- A candidate of a level, with the visits beneath it, that passed all that the level asks
when it was evaluated: the vertex condition, the filter, the levels below, which it descended
to, and the post-filter. -/
structure Passed (s : Store) (rank : Option Expression) (level : PlannedLevel)
    (below : List PlannedLevel) (anchor : CellId) (depth : Nat) (link : Visit × Visits) : Prop where
  around : link.1.arc ∈ level.arcsAround (s.data anchor)
  found : s.lookupKey link.1.arc.1 = some (s.farVertex link.1.arc)
  vertex : level.allowsVertex s (s.farVertex link.1.arc) = true
  filter : Judged level.predicate (Level.candidate s anchor depth link.1.arc) link.1.filter true
  collected : Collects level.collect rank (Level.candidate s anchor depth link.1.arc) link.1.rank
    link.1.own
  beneath : s.Records rank below (s.farVertex link.1.arc) (depth + 1)
    (s.arcsAround below (s.farVertex link.1.arc)) link.2
  nested : below = [] ∨ link.2.matched = true
  postFilter : Judged level.postFilter (Level.candidate s anchor depth link.1.arc) link.1.post true

/-- A chain of candidates down to an entry: each is a survivor among the visits beneath the one
before, and passed its level; the last one collected the entry. -/
inductive Chain (s : Store) (rank : Option Expression) : List PlannedLevel → CellId → Nat →
    Visits → List (Visit × Visits) → Entry → Prop where
  | last {level : PlannedLevel} {below : List PlannedLevel} {anchor : CellId} {depth : Nat}
      {visits : Visits} {link : Visit × Visits} {e : Entry}
      (passed : s.Passed rank level below anchor depth link) (among : link ∈ visits.survivors)
      (own : e ∈ link.1.own) :
    Chain s rank (level :: below) anchor depth visits [link] e
  | link {level : PlannedLevel} {below : List PlannedLevel} {anchor : CellId} {depth : Nat}
      {visits : Visits} {link : Visit × Visits} {chain : List (Visit × Visits)} {e : Entry}
      (passed : s.Passed rank level below anchor depth link) (among : link ∈ visits.survivors)
      (rest : Chain s rank below (s.farVertex link.1.arc) (depth + 1) link.2 chain e) :
    Chain s rank (level :: below) anchor depth visits (link :: chain) e

/-- A visit that was survived passed its level. -/
theorem Visited.passed {matched : Bool} {x : SeenArc} {v : Visit}
    (h : s.Visited rank level anchor depth matched x v) (hv : v.survives = true) :
    v.arc = x ∧ matched = true ∧ v.descends = true ∧
      s.lookupKey x.1 = some (s.farVertex x) ∧ level.allowsVertex s (s.farVertex x) = true ∧
      Judged level.predicate (Level.candidate s anchor depth x) v.filter true ∧
      Collects level.collect rank (Level.candidate s anchor depth x) v.rank v.own ∧
      Judged level.postFilter (Level.candidate s anchor depth x) v.post true := by
  cases h with
  | absent | barred | refused | unmatched | vetoed => cases hv
  | survived found allowed filtered collected nested judged =>
    exact ⟨rfl, nested, rfl, found, allowed, filtered, collected, judged⟩

theorem Records.passed (h : s.Records rank (level :: below) anchor depth arcs visits)
    (harcs : ∀ x ∈ arcs, x ∈ level.arcsAround (s.data anchor)) (hm : link ∈ visits.survivors) :
    s.Passed rank level below anchor depth link := by
  induction visits generalizing arcs with
  | none => cases hm
  | add v beneath later _ ih =>
    cases h with
    | @add _ _ _ _ x rest _ _ _ here hbelow next =>
      have hrest : ∀ y ∈ (if v.survives && level.stopsAtMatch then [] else rest),
          y ∈ level.arcsAround (s.data anchor) := by
        intro y hy
        split at hy
        · cases hy
        · exact harcs y (List.mem_cons_of_mem x hy)
      rw [Visits.survivors] at hm
      split at hm
      next hv =>
        rcases List.mem_cons.1 hm with rfl | hm
        · obtain ⟨rfl, hmatched, hdescends, hfound, hvertex, hfilter, hcollected, hpost⟩ :=
            here.passed hv
          rw [hdescends, if_pos rfl] at hbelow
          rw [Bool.or_eq_true, List.isEmpty_iff] at hmatched
          exact ⟨harcs _ List.mem_cons_self, hfound, hvertex, hfilter, hcollected, hbelow,
            hmatched, hpost⟩
        · exact ih next hrest hm
      next => exact ih next hrest hm

/-- Every entry of a trace has its chain. -/
theorem Records.chain {levels : List PlannedLevel} {visits : Visits}
    (h : s.Records rank levels anchor depth (s.arcsAround levels anchor) visits)
    (he : e ∈ visits.entries) : ∃ chain, s.Chain rank levels anchor depth visits chain e := by
  induction levels generalizing anchor depth visits with
  | nil =>
    cases h
    cases he
  | cons level below ih =>
    rw [Visits.entries_eq_flatMap] at he
    obtain ⟨link, hm, he⟩ := List.mem_flatMap.1 he
    have hpassed := h.passed (fun _ hx => hx) hm
    rcases List.mem_append.1 he with hown | hbeneath
    · exact ⟨_, .last hpassed hm hown⟩
    · obtain ⟨chain, hchain⟩ := ih hpassed.beneath hbeneath
      exact ⟨_, .link hpassed hm hchain⟩

/-- A chain has one candidate for every level from the first one to the entry's. -/
theorem Chain.length {levels : List PlannedLevel} {chain : List (Visit × Visits)}
    (h : s.Chain rank levels anchor depth visits chain e) :
    depth + chain.length = e.depth + 1 := by
  induction h with
  | last passed _ own =>
    obtain ⟨value, rfl⟩ := passed.collected.entry _ own
    rfl
  | link _ _ _ ih =>
    rw [List.length_cons]
    omega

/-- Along a chain, what a candidate collects stands right before what is collected beneath it,
and the verdicts on it are among the evaluations of the walk. -/
theorem Chain.infix {levels : List PlannedLevel} {chain : List (Visit × Visits)}
    (h : s.Chain rank levels anchor depth visits chain e) : ∀ link ∈ chain,
      link.1.own ++ link.2.entries <:+: visits.entries ∧
      link.1.filter ++ link.1.rank ++ link.2.evaluations ++ link.1.post <:+: visits.evaluations := by
  induction h with
  | last _ among _ =>
    intro link hm
    obtain rfl := List.mem_singleton.1 hm
    exact ⟨Visits.infix_of_mem_survivors among, Visits.evaluations_infix_of_mem_survivors among⟩
  | @link _ _ _ _ _ first _ _ _ among _ ih =>
    have hentries := Visits.infix_of_mem_survivors among
    have hevaluations := Visits.evaluations_infix_of_mem_survivors among
    intro link hm
    rcases List.mem_cons.1 hm with rfl | hm
    · exact ⟨hentries, hevaluations⟩
    · obtain ⟨he, hv⟩ := ih link hm
      have hmiddle : first.2.evaluations <:+:
          first.1.filter ++ first.1.rank ++ first.2.evaluations ++ first.1.post := ⟨_, _, rfl⟩
      exact ⟨(he.trans (List.suffix_append _ _).isInfix).trans hentries,
        (hv.trans hmiddle).trans hevaluations⟩

end Store

/-! ## Walks -/

/-- What a walk through a chain of levels, with its trace, does to the pool and the registers
that it is given. -/
structure Walk.Accrues (w w' : Walk) (s : Store) (rank : Option Expression)
    (levels : List PlannedLevel) (anchor : CellId) (depth : Nat) (found : Bool)
    (visits : Visits) : Prop where
  recorded : s.Records rank levels anchor depth (s.arcsAround levels anchor) visits
  matched : visits.matched = found
  registers : Threaded w.registers visits.evaluations w'.registers
  pool : w'.pool = w.pool ++ visits.entries
  unmatched : found = false → w'.pool = w.pool
  chained : ∀ e ∈ visits.entries, ∃ chain, s.Chain rank levels anchor depth visits chain e ∧
    depth + chain.length = e.depth + 1 ∧ ∀ link ∈ chain,
      link.1.own ++ link.2.entries <:+: visits.entries ∧
      link.1.filter ++ link.1.rank ++ link.2.evaluations ++ link.1.post <:+: visits.evaluations

variable {s s' : Store} {G : List Guard} {who : Caller} {plan : Plan} {level : PlannedLevel}
  {below : List PlannedLevel} {anchor : CellId} {depth : Nat} {w w' : Walk} {found : Bool}

/-- A walk through levels that comes to its end adds to the pool what the survivors of its
trace collect, each entry with its chain, and nothing where none survives, whatever its
expressions make of the registers; these go through all evaluations, one after the other. -/
theorem vetoed_leave_nothing (hlocks : s.locks.Accounts G)
    (hrun : (walkLevels who plan (level :: below) depth anchor w).run s = (.ok (found, w'), s')) :
    ∃ visits, w.Accrues w' s plan.rank (level :: below) anchor depth found visits := by
  have htrace : Answers s G (walkLevels who plan (level :: below) depth anchor w)
      (Beneath s plan.rank (level :: below) anchor depth w) :=
    answers_trace (level :: below) depth anchor w
  obtain ⟨r, t, htraced, _, _, hleaves⟩ := htrace s.locks (.refl _) hlocks
  obtain rfl : r = .ok (found, w') := congrArg Prod.fst (htraced.symm.trans hrun)
  obtain ⟨matched, hmatched, visits, hrecords, rfl, hcomes⟩ := hleaves
  obtain rfl : found = visits.matched := hmatched
  refine ⟨visits, hrecords, rfl, hcomes.threaded, hcomes.pool, fun hnone => ?_, fun e he => ?_⟩
  · rw [hcomes.pool, Visits.entries_of_unmatched hnone, List.append_nil]
  · obtain ⟨chain, hchain⟩ := hrecords.chain he
    exact ⟨chain, hchain, hchain.length, hchain.infix⟩

/-- Notes every candidate that it ranks in a register of its own. -/
def noting : Expression where
  evaluate c registers := { result := .ok .zero, registers := registers.insert c.vertex.id .zero }

/-- Outbound arcs and those that go on from them, ranked by notes. -/
def notingPlan : Plan :=
  let level : PlannedLevel :=
    { filter := ⟨.any, none, .any⟩, direction := .out, vertex := none, adjacent := none
      predicate := none, postFilter := none, collect := .collect, stopsAtMatch := false }
  { anchor := "a", root := level, nested := [level], rank := some noting, sortBy := .rank
    direction := .ascending, offset := 0, hits := none, timeout := none, timeLimit := none }

/-- The arc that does not go on is collected and taken back; the note on it stays. -/
theorem vetoed_leave_nothing_branching : ∃ w' s' visits,
    (walkLevels ⟨⟨"u"⟩, 6⟩ notingPlan (notingPlan.root :: notingPlan.nested) 1 0 {}).run
      branching.store = (.ok (true, w'), s') ∧
    w'.pool.map (fun e => (e.vertex.id, e.depth)) = [("b", 1), ("c", 2)] ∧
    w'.registers.contains "e" = true ∧
    Walk.Accrues {} w' branching.store (some noting) (notingPlan.root :: notingPlan.nested) 0 1
      true visits := by
  have hlocks := reach_branching.sound_live.guarded.accounts
  have hview : ((((walkLevels ⟨⟨"u"⟩, 6⟩ notingPlan (notingPlan.root :: notingPlan.nested) 1 0
      {}).run branching.store).1).map fun y => (y.1,
        y.2.pool.map (fun e => (e.vertex.id, e.depth)), y.2.registers.contains "e")).toOption =
      some (true, [("b", 1), ("c", 2)], true) := by
    set_option maxRecDepth 10000 in
    cbv
  cases hrun : (walkLevels ⟨⟨"u"⟩, 6⟩ notingPlan (notingPlan.root :: notingPlan.nested) 1 0
      {}).run branching.store with
  | mk r s' =>
    rw [hrun] at hview
    cases r with
    | error e => cases hview
    | ok y =>
      obtain ⟨found, w'⟩ := y
      simp only [Except.map, Except.toOption, Option.some.injEq, Prod.mk.injEq] at hview
      obtain ⟨rfl, hpool, hnoted⟩ := hview
      obtain ⟨visits, haccrues⟩ := vetoed_leave_nothing hlocks hrun
      exact ⟨w', s', visits, rfl, hpool, hnoted, haccrues⟩

end Arcbase
