import Arcbase.Proofs.Store.Paired
import Arcbase.Query.Walk
set_option autoImplicit false

/-!
# What a query asks for

The arcs that a query collects, told without a walk.  An arc around the anchor of a
level *survives* there if its far vertex and its candidate pass, if the vertex *matches*
the levels below, and if the post-filter is true; a vertex matches levels if some arc
around it survives.  What is *collected* from a vertex are its surviving arcs, each
followed by what is collected from its far vertex.

Labels, identifiers and conditions are read as the query has them.  A plan reads them
by codes and keys, and that comes to the same (`serving_of_plan`).
-/

namespace Arcbase

open Store

/-! ## Expressions and conditions -/

namespace Expression

/-- The number that an expression has on a candidate while no register is written. -/
def valueOn (e : Expression) (c : Candidate) : Binary64 :=
  match (e.evaluate c .empty).result with
  | .ok x => x
  | .error _ => .zero

/-- The expression never fails, and registers do not change its numbers. -/
def Steady (e : Expression) : Prop :=
  ∀ c registers, (e.evaluate c registers).result = .ok (e.valueOn c)

end Expression

/-- Whether a condition is true of a candidate; no condition is. -/
def Candidate.fulfils (c : Candidate) (condition : Option Expression) : Bool :=
  condition.all fun e => truthy (e.valueOn c)

/-- Whether a probe selects an arc by its relationship, kind and number. -/
def Probe.selects (p : Probe) (labels : Labels) (a : StoredArc) : Bool :=
  p.relationship.all (fun l => labels.relationships.lookup? l == some a.relationship) &&
    p.kind.all (· == a.kind) && p.value.test a.value.toNumber

/-- The arcs of a vertex on the given sides, outbound ones first. -/
def VertexData.arcsOn (d : VertexData) (direction : Direction) : List SeenArc :=
  (if direction.includesOut then d.out.entries.map fun (n, a) => (n, .out, a) else []) ++
    if direction.includesIn then d.inbound.entries.map fun (n, a) => (n, .inward, a) else []

/-- Whether a condition admits a vertex. -/
def VertexCondition.admits (v : VertexCondition) (s : Store) (c : CellId) : Bool :=
  v.ids.all (·.any fun id => s.keyOf c == .of id) &&
    v.type.all (fun l => (s.labels.types.lookup? l).any fun code => (s.data c).type == some code) &&
    v.manifestation.all (· == (s.data c).manifestation)

/-- Whether there is an arc around a vertex as a condition asks, or, negated, none. -/
def AdjacencyCondition.fulfilled (x : AdjacencyCondition) (s : Store) (a : CellId) : Bool :=
  (((s.data a).arcsOn x.probe.direction).any fun (n, _, arc) =>
    x.neighbors.all (·.any fun id => n == .of id) && x.probe.selects s.labels arc) != x.negate

/-! ## Levels -/

/-- The vertex at the far end of an arc. -/
def Store.farVertex (s : Store) (x : SeenArc) : CellId := (s.lookupKey x.1).getD s.cells.size

namespace Level

variable (l : Level) (s : Store) (a : CellId) (depth : Nat) (x : SeenArc)

/-- The arcs around an anchor that a level's probe selects. -/
def arcs : List SeenArc :=
  ((s.data a).arcsOn l.arc.direction).filter fun x => l.arc.selects s.labels x.2.2

/-- The candidate of an arc. -/
def candidate : Candidate := PlannedLevel.candidate s a (s.farVertex x) x.2.1 x.2.2 depth

/-- Whether the adjacency condition of a level, if any, is fulfilled at an anchor. -/
def asserts : Bool := l.adjacent.all (·.fulfilled s a)

/-- Whether the candidate of an arc passes on to the levels below. -/
def enters : Bool :=
  l.vertex.all (·.admits s (s.farVertex x)) && (candidate s a depth x).fulfils l.filter

/-- Whether an arc survives, where `below` says which vertices match the levels below. -/
def survives (below : CellId → Bool) : Bool :=
  l.enters s a depth x && below (s.farVertex x) && (candidate s a depth x).fulfils l.postFilter

/-- What a level collects of a candidate. -/
def collects (rank : Option Expression) (c : Candidate) : List Entry :=
  if l.collect = .collect then
    [{ arc := c.arc, vertex := c.vertex, depth := c.depth, rank := rank.map (·.valueOn c) }]
  else []

/-- What an arc gives that survives, where `deeper` is what is collected from a vertex. -/
def gain (rank : Option Expression) (deeper : CellId → List Entry) : List Entry :=
  l.collects rank (candidate s a depth x) ++ deeper (s.farVertex x)

variable {l s a depth x}

theorem gain_eq_nil {rank : Option Expression} {deeper : CellId → List Entry}
    (hl : l.collect ≠ .collect) (hd : deeper (s.farVertex x) = []) :
    l.gain s a depth x rank deeper = [] := by
  rw [gain, collects, if_neg hl, hd]
  rfl

end Level

/-- Where no level of a chain collects, the first one does not, and no level below it. -/
theorem anyCollects_cons_eq_false {l : Level} {ls : List Level} :
    anyCollects (l :: ls) = false ↔ l.collect ≠ .collect ∧ anyCollects ls = false := by
  simp [anyCollects]

namespace Store

/-- Whether a vertex matches a chain of levels.  Every vertex matches the empty chain. -/
def matchesLevels (s : Store) : List Level → Nat → CellId → Bool
  | [], _, _ => true
  | l :: below, depth, a =>
    l.asserts s a &&
      (l.arcs s a).any fun x => l.survives s a depth x (s.matchesLevels below (depth + 1))

/-- What a chain of levels collects from a vertex. -/
def collected (s : Store) (rank : Option Expression) : List Level → Nat → CellId → List Entry
  | [], _, _ => []
  | l :: below, depth, a =>
    if l.asserts s a then
      ((l.arcs s a).filter fun x =>
        l.survives s a depth x (s.matchesLevels below (depth + 1))).flatMap fun x =>
          l.gain s a depth x rank (s.collected rank below (depth + 1))
    else []

/-- Where no level collects, nothing is collected. -/
theorem collected_eq_nil (s : Store) (rank : Option Expression) {levels : List Level}
    (h : anyCollects levels = false) (depth : Nat) (a : CellId) :
    s.collected rank levels depth a = [] := by
  induction levels generalizing depth a with
  | nil => rfl
  | cons l below ih =>
    obtain ⟨hl, hbelow⟩ := anyCollects_cons_eq_false.1 h
    rw [collected]
    split
    · exact List.flatMap_eq_nil_iff.2 fun x _ => Level.gain_eq_nil hl (ih hbelow _ _)
    · rfl

end Store

namespace Query

/-- The levels of a query, from the root down. -/
def levels (q : Query) : List Level := q.root :: q.nested

/-- What a query collects around its anchor. -/
def collected (q : Query) (s : Store) (a : CellId) : List Entry := s.collected q.rank q.levels 1 a

end Query

/-! ## Plans -/

/-- The filter of a probe selects the same arcs. -/
theorem test_of_ofProbe {labels : Labels} {p : Probe} {f : ArcFilter}
    (h : ArcFilter.ofProbe labels p = .ok f) (a : StoredArc) : f.test a = p.selects labels a := by
  unfold ArcFilter.ofProbe at h
  cases hfault : p.value.fault? with
  | some fault => simp [hfault] at h
  | none =>
    rw [hfault] at h
    dsimp only at h
    split at h
    next hrel =>
      cases h
      simp [ArcFilter.test, RelationshipMatch.test, Probe.selects, hrel]
    next => cases h
    next label _ hrel =>
      cases hlook : labels.relationships.lookup? label with
      | none =>
        rw [hlook] at h
        cases h
        simp [ArcFilter.test, RelationshipMatch.test, Probe.selects, hrel, hlook]
      | some c =>
        rw [hlook] at h
        cases h
        simp [ArcFilter.test, RelationshipMatch.test, Probe.selects, hrel, hlook, BEq.comm]

namespace VertexData

variable {d : VertexData} {f : ArcFilter} {direction : Direction}

/-- What a filter accepts are the arcs that it tests true, in the same order. -/
theorem matchingArcs_eq (d : VertexData) (f : ArcFilter) (direction : Direction) :
    d.matchingArcs f direction = (d.arcsOn direction).filter fun x => f.test x.2.2 := by
  simp only [matchingArcs, arcsOn, ArcIndex.matching, List.filter_append]
  congr 1 <;> split <;> simp [List.filter_map, Function.comp_def]

theorem mem_arcsBetween_iff {n : VertexKey} {a : StoredArc} :
    a ∈ d.arcsBetween n f direction ↔ ∃ side, (n, side, a) ∈ d.arcsOn direction ∧ f.test a := by
  simp only [arcsBetween, arcsOn, List.mem_filter, List.mem_append]
  constructor
  · rintro ⟨h | h, ht⟩
    · cases hout : direction.includesOut
      · simp [hout] at h
      · rw [hout, if_pos rfl, ← ArcIndex.mem_entries_iff] at h
        exact ⟨.out, .inl (by simpa using h), ht⟩
    · cases hin : direction.includesIn
      · simp [hin] at h
      · rw [hin, if_pos rfl, ← ArcIndex.mem_entries_iff] at h
        exact ⟨.inward, .inr (by simpa using h), ht⟩
  · rintro ⟨side, h | h, ht⟩
    · cases hout : direction.includesOut
      · simp [hout] at h
      · have hm : (n, a) ∈ d.out.entries := by
          simp only [hout, if_true, List.mem_map, Prod.mk.injEq] at h
          obtain ⟨⟨n', a'⟩, hm, rfl, -, rfl⟩ := h
          exact hm
        exact ⟨.inl (by simpa [hout] using ArcIndex.mem_entries_iff.1 hm), ht⟩
    · cases hin : direction.includesIn
      · simp [hin] at h
      · have hm : (n, a) ∈ d.inbound.entries := by
          simp only [hin, if_true, List.mem_map, Prod.mk.injEq] at h
          obtain ⟨⟨n', a'⟩, hm, rfl, -, rfl⟩ := h
          exact hm
        exact ⟨.inr (by simpa [hin] using ArcIndex.mem_entries_iff.1 hm), ht⟩

theorem hasMatchingArc_iff {ids : Option (List String)} :
    d.hasMatchingArc f direction (ids.map (·.map .of)) = true ↔
      ∃ x ∈ d.arcsOn direction, ids.all (·.any fun id => x.1 == .of id) = true ∧ f.test x.2.2 := by
  cases ids with
  | none =>
    simp only [hasMatchingArc, Option.map_none, Bool.not_eq_true',
      List.isEmpty_eq_false_iff_exists_mem,
      matchingArcs_eq, List.mem_filter, Option.all_none, true_and]
  | some ids =>
    simp only [hasMatchingArc, Option.map_some, List.any_map, List.any_eq_true, Function.comp_apply,
      Bool.not_eq_true', List.isEmpty_eq_false_iff_exists_mem, mem_arcsBetween_iff, Option.all_some,
      beq_iff_eq]
    constructor
    · rintro ⟨id, hid, a, side, hm, ht⟩
      exact ⟨(.of id, side, a), hm, ⟨id, hid, rfl⟩, ht⟩
    · rintro ⟨⟨n, side, a⟩, hm, ⟨id, hid, rfl⟩, ht⟩
      exact ⟨id, hid, a, side, hm, ht⟩

end VertexData

variable {s : Store}

theorem allows_of_planVertex {v : VertexCondition} {p : PlannedVertex}
    (h : s.planVertex v = .ok p) (c : CellId) :
    p.allows (s.cell c).key (s.cell c).data.type (s.cell c).data.manifestation = v.admits s c := by
  have hkeys : (v.ids.map (·.map VertexKey.of)).all (·.contains (s.cell c).key) =
      v.ids.all (·.any fun id => s.keyOf c == .of id) := by
    cases v.ids with
    | none => rfl
    | some ids =>
      simp only [Option.map_some, Option.all_some, List.contains_eq_any_beq, List.any_map]
      rfl
  simp only [planVertex, bind, Except.bind, pure, Except.pure, throw, throwThe,
    MonadExceptOf.throw] at h
  split at h
  next htype =>
    cases h
    simp only [PlannedVertex.allows, VertexCondition.admits, hkeys, htype, Option.all_none]
    rfl
  next => cases h
  next label _ htype =>
    cases h
    simp only [PlannedVertex.allows, VertexCondition.admits, hkeys, htype, Option.all_some]
    cases s.labels.types.lookup? label <;> rfl

theorem holds_of_planAdjacency {x : AdjacencyCondition} {p : PlannedAdjacency}
    (h : s.planAdjacency x = .ok p) (a : CellId) :
    p.holds (s.data a) = x.fulfilled s a := by
  simp only [planAdjacency, bind, Except.bind, pure, Except.pure] at h
  cases hf : s.filterOf x.probe with
  | error e => simp [hf] at h
  | ok f =>
    rw [hf] at h
    cases h
    have hsame : (s.data a).hasMatchingArc f x.probe.direction (x.neighbors.map (·.map .of)) =
        ((s.data a).arcsOn x.probe.direction).any fun (n, _, arc) =>
          x.neighbors.all (·.any fun id => n == .of id) && x.probe.selects s.labels arc := by
      rw [Bool.eq_iff_iff, VertexData.hasMatchingArc_iff, List.any_eq_true]
      simp only [Bool.and_eq_true, test_of_ofProbe hf]
    rw [PlannedAdjacency.holds, AdjacencyCondition.fulfilled, hsame]

namespace PlannedLevel

/-- A planned level that looks at the arcs, and lets the vertices and candidates pass,
that a level of a query is about. -/
structure Serves (p : PlannedLevel) (s : Store) (l : Level) : Prop where
  arcs : ∀ a, p.arcsAround (s.data a) = if l.asserts s a then l.arcs s a else []
  vertex : ∀ c, p.allowsVertex s c = l.vertex.all (·.admits s c)
  predicate : p.predicate = l.filter
  postFilter : p.postFilter = l.postFilter
  collect : p.collect = l.collect

end PlannedLevel

/-- The outcome of something that may be left out. -/
theorem all_of_mapM {α β ε : Type} {f : α → Except ε β} {x : Option α} {y : Option β}
    (h : x.mapM f = .ok y) {test : α → Bool} {test' : β → Bool}
    (hf : ∀ a b, f a = .ok b → test' b = test a) : y.all test' = x.all test := by
  cases x with
  | none =>
    cases h
    rfl
  | some a =>
    simp only [Option.mapM_some, Functor.map, Except.map] at h
    cases hfa : f a with
    | error e => simp [hfa] at h
    | ok b =>
      rw [hfa] at h
      cases h
      exact hf a b hfa

theorem serves_of_planLevel {l : Level} {stops : Bool} {p : PlannedLevel}
    (h : s.planLevel l stops = .ok p) : p.Serves s l ∧ p.stopsAtMatch = stops := by
  simp only [planLevel, bind, Except.bind, pure, Except.pure] at h
  cases hf : s.filterOf l.arc with
  | error e => simp [hf] at h
  | ok f =>
    cases hv : l.vertex.mapM s.planVertex with
    | error e => simp [hf, hv] at h
    | ok v =>
      cases ha : l.adjacent.mapM s.planAdjacency with
      | error e => simp [hf, hv, ha] at h
      | ok x =>
        rw [hf, hv, ha] at h
        cases h
        refine ⟨⟨fun a => ?_, fun c => ?_, rfl, rfl, rfl⟩, rfl⟩
        · have hassert : x.all (·.holds (s.data a)) = l.asserts s a :=
            all_of_mapM ha fun _ _ hp => holds_of_planAdjacency hp a
          simp only [PlannedLevel.arcsAround, hassert, VertexData.matchingArcs_eq,
            test_of_ofProbe hf, Level.arcs]
        · exact all_of_mapM hv fun _ _ hp => allows_of_planVertex hp c

/-- Planned levels that serve a chain of levels, and stop at a match only where nothing is
collected any more. -/
inductive Serving (s : Store) : List PlannedLevel → List Level → Prop
  | nil : Serving s [] []
  | cons {p : PlannedLevel} {ps : List PlannedLevel} {l : Level} {ls : List Level}
      (here : p.Serves s l) (stops : p.stopsAtMatch = true → anyCollects (l :: ls) = false)
      (below : Serving s ps ls) : Serving s (p :: ps) (l :: ls)

theorem serving_of_planNested {ls : List Level} {ps : List PlannedLevel}
    (h : s.planNested ls = .ok ps) : Serving s ps ls := by
  induction ls generalizing ps with
  | nil =>
    cases h
    exact .nil
  | cons l below ih =>
    simp only [planNested, bind, Except.bind, pure, Except.pure] at h
    cases hp : s.planLevel l (l.collect == .none && !anyCollects below) with
    | error e => simp [hp] at h
    | ok p =>
      cases hps : s.planNested below with
      | error e => simp [hp, hps] at h
      | ok rest =>
        rw [hp, hps] at h
        cases h
        obtain ⟨hserves, hstops⟩ := serves_of_planLevel hp
        refine .cons hserves (fun hstop => ?_) (ih hps)
        rw [hstops] at hstop
        simp only [Bool.and_eq_true, beq_iff_eq, Bool.not_eq_true'] at hstop
        exact anyCollects_cons_eq_false.2 ⟨by simp [hstop.1], hstop.2⟩

/-- What a plan has to do with its query. -/
structure Plan.Serves (p : Plan) (s : Store) (q : Query) : Prop where
  anchor : p.anchor = q.anchor
  levels : Serving s (p.root :: p.nested) q.levels
  rank : p.rank = q.rank
  timeLimit : q.boundsTime = false → p.timeLimit = none
  depth : q.depth < s.locks.limit

theorem serves_of_plan {q : Query} {p : Plan} (h : q.plan s = .ok p) : p.Serves s q := by
  simp only [Query.plan, bind, Except.bind, pure, Except.pure, throw, throwThe,
    MonadExceptOf.throw] at h
  cases hfault : s.identifierFault? q.anchor with
  | some fault => simp [hfault] at h
  | none =>
    by_cases hdeep : s.locks.limit ≤ q.depth
    · simp [hfault, hdeep] at h
    · simp only [hfault, hdeep, if_false] at h
      cases hsort : q.order.mapError Error.query with
      | error e => simp [hsort] at h
      | ok order =>
        cases htime : q.timeLimit.mapError Error.query with
        | error e => simp [hsort, htime] at h
        | ok limit =>
          cases hroot : s.planLevel q.root false with
          | error e => simp [hsort, htime, hroot] at h
          | ok root =>
            cases hnested : s.planNested q.nested with
            | error e => simp [hsort, htime, hroot, hnested] at h
            | ok nested =>
              simp only [hsort, htime, hroot, hnested, Except.ok.injEq] at h
              subst h
              obtain ⟨hserves, hstops⟩ := serves_of_planLevel hroot
              refine ⟨rfl, .cons hserves ?_ (serving_of_planNested hnested), rfl, fun hfree => ?_,
                Nat.lt_of_not_le hdeep⟩
              · rw [hstops]
                exact fun hstop => (Bool.false_ne_true hstop).elim
              · rw [Query.timeLimit, hfree] at htime
                cases htime
                rfl

end Arcbase
