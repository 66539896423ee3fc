import Arcbase.Proofs.Action.Alongside
import Arcbase.Query.Result
set_option autoImplicit false

/-!
# Queries under other label tables

The plans of a query under two label tables may differ: a label may have a code in one and none
in the other.  On a graph all of whose labels both tables know the plans come to the same
(`SamePlan`), so that the walks go alongside each other and collect the same entries, with the
same labels on them (`alongside_neighborhood`, `alongside_aggregate`).
-/

namespace Arcbase

open Arcbase.Action Store

variable {s : Store} {l : Labels} {G : List Guard} {who : Caller}

/-! ## Plans -/

/-- Planned levels that look at the same arcs of a graph, and let the same vertices and
candidates pass. -/
structure SameLevel (s : Store) (l : Labels) (p p' : PlannedLevel) : Prop where
  arcs : ∀ c, s.Live c → p'.arcsAround (s.data c) = p.arcsAround (s.data c)
  vertex : ∀ c, p'.allowsVertex { s with labels := l } c = p.allowsVertex s c
  predicate : p'.predicate = p.predicate
  postFilter : p'.postFilter = p.postFilter
  collect : p'.collect = p.collect
  stopsAtMatch : p'.stopsAtMatch = p.stopsAtMatch

/-- Plans that differ in their levels at most, which come to the same. -/
structure SamePlan (s : Store) (l : Labels) (p p' : Plan) : Prop where
  rest : p' = { p with root := p'.root, nested := p'.nested }
  levels : List.Forall₂ (SameLevel s l) (p.root :: p.nested) (p'.root :: p'.nested)

/-- What is done with parts that are left out or planned. -/
theorem sameOutcome_mapM {α β : Type} {f f' : α → Except Error β} (x : Option α)
    (h : ∀ a, SameOutcome (fun _ _ => True) (f a) (f' a)) :
    SameOutcome (fun _ _ => True) (x.mapM f) (x.mapM f') := by
  cases x with
  | none => exact .ok trivial
  | some a => exact (h a).bind fun y y' _ => .ok trivial

section Plans

variable (h : s.LegibleUnder l)
include h

theorem sameOutcome_planLevel (x : Level) (stops : Bool) :
    SameOutcome (SameLevel s l) (s.planLevel x stops)
      (({ s with labels := l } : Store).planLevel x stops) := by
  have hfilter : ∀ p, SameOutcome (fun _ _ => True) (s.filterOf p)
      (({ s with labels := l } : Store).filterOf p) := fun p =>
    (sameOutcome_filterOf h p).of_ok fun _ _ _ _ => trivial
  have hvertex : ∀ v, SameOutcome (fun _ _ => True) (s.planVertex v)
      (({ s with labels := l } : Store).planVertex v) := by
    intro v
    unfold planVertex
    split
    · exact .ok trivial
    · exact .error _
    · exact .ok trivial
  have hadjacent : ∀ a, SameOutcome (fun _ _ => True) (s.planAdjacency a)
      (({ s with labels := l } : Store).planAdjacency a) := fun a =>
    (hfilter a.probe).bind fun _ _ _ => .ok trivial
  have hplanned : SameOutcome (fun _ _ => True) (s.planLevel x stops)
      (({ s with labels := l } : Store).planLevel x stops) :=
    (hfilter x.arc).bind fun _ _ _ => (sameOutcome_mapM x.vertex hvertex).bind fun _ _ _ =>
      (sameOutcome_mapM x.adjacent hadjacent).bind fun _ _ _ => .ok trivial
  refine hplanned.of_ok fun p p' hp hp' => ?_
  obtain ⟨hserves, hstops⟩ := serves_of_planLevel hp
  obtain ⟨hserves', hstops'⟩ := serves_of_planLevel hp'
  refine ⟨fun c hc => ?_, fun c => ?_, ?_, ?_, ?_, ?_⟩
  · have harcs := hserves'.arcs c
    rw [h.asserts_eq hc, h.arcs_eq hc] at harcs
    rw [hserves.arcs c]
    exact harcs
  · rw [hserves.vertex, hserves'.vertex]
    cases x.vertex with
    | none => rfl
    | some v => exact h.admits_eq v c
  · rw [hserves'.predicate, hserves.predicate]
  · rw [hserves'.postFilter, hserves.postFilter]
  · rw [hserves'.collect, hserves.collect]
  · rw [hstops', hstops]

/-- Planning does not depend on the locks. -/
theorem sameOutcome_planNested (levels : List Level) (t : LockTable) :
    SameOutcome (List.Forall₂ (SameLevel s l)) (({ s with locks := t } : Store).planNested levels)
      (({ s with locks := t, labels := l } : Store).planNested levels) := by
  induction levels with
  | nil => exact .ok .nil
  | cons x below ih =>
    refine SameOutcome.bind (sameOutcome_planLevel h x _) fun _ _ hx => ?_
    exact SameOutcome.bind ih fun _ _ hbelow => .ok (.cons hx hbelow)

/-- The limit on nesting is a setting of the locks, whatever these are. -/
theorem sameOutcome_plan (q : Query) (t : LockTable) :
    SameOutcome (SamePlan s l) (q.plan { s with locks := t })
      (q.plan { s with locks := t, labels := l }) := by
  have hfault : ({ s with locks := t, labels := l } : Store).identifierFault? q.anchor =
      ({ s with locks := t } : Store).identifierFault? q.anchor := rfl
  unfold Query.plan
  rw [hfault]
  cases ({ s with locks := t } : Store).identifierFault? q.anchor with
  | some fault => exact .error _
  | none =>
    by_cases hdeep : t.limit ≤ q.depth
    · simp only [hdeep, if_true]
      exact .error _
    · simp only [hdeep, if_false]
      refine SameOutcome.bind (SameOutcome.refl (q.order.mapError Error.query)) ?_
      rintro order _ rfl
      refine SameOutcome.bind (SameOutcome.refl (q.timeLimit.mapError Error.query)) ?_
      rintro limit _ rfl
      refine SameOutcome.bind (sameOutcome_planLevel h q.root false) fun _ _ hroot => ?_
      refine SameOutcome.bind (sameOutcome_planNested h q.nested t) fun _ _ hnested => ?_
      exact .ok ⟨rfl, .cons hroot hnested⟩

end Plans

/-! ## Walks -/

/-- What a level looks at around a vertex is stored with it. -/
theorem PlannedLevel.stored_of_mem_arcsAround {p : PlannedLevel} {d : VertexData} {x : SeenArc}
    (hx : x ∈ p.arcsAround d) :
    (x.1, x.2.2) ∈ d.out.entries ∨ (x.1, x.2.2) ∈ d.inbound.entries := by
  rw [arcsAround] at hx
  split at hx
  · rw [VertexData.matchingArcs_eq] at hx
    exact VertexData.stored_of_mem_arcsOn (List.mem_of_mem_filter hx)
  · cases hx

/-- What is walked beneath a candidate goes alongside. -/
def AlongsideDescent (s : Store) (l : Labels) (beneath beneath' : Descent) : Prop :=
  ∀ G c w, s.Live c → Alongside s l G (beneath c w) (beneath' c w) (· = ·)

variable {p p' : PlannedLevel} {plan plan' : Plan} {beneath beneath' : Descent} {c : CellId}

theorem SameLevel.alongside_consider (hp : SameLevel s l p p')
    (hb : AlongsideDescent s l beneath beneath') (rank : Option Expression) (hc : s.Live c)
    (x : Candidate) (w : Walk) :
    Alongside s l G (p.consider rank beneath c x w) (p'.consider rank beneath' c x w)
      (· = ·) := by
  unfold PlannedLevel.consider
  rw [hp.predicate, hp.collect, hp.postFilter]
  refine alongside_bind (alongside_same _) ?_
  rintro ⟨passed, w⟩ _ rfl
  dsimp only
  split
  · exact alongside_pure rfl
  · refine alongside_bind (alongside_same _) ?_
    rintro w _ rfl
    refine alongside_bind (hb G c w hc) ?_
    rintro ⟨matched, w⟩ _ rfl
    dsimp only
    split
    · exact alongside_pure rfl
    · refine alongside_bind (alongside_same _) ?_
      rintro ⟨passed, w⟩ _ rfl
      exact alongside_pure rfl

/-- The candidate of an arc that is visited shows the same labels. -/
theorem SameLevel.alongside_visit (h : s.LegibleUnder l) (hp : SameLevel s l p p')
    (hb : AlongsideDescent s l beneath beneath') (hplan : SamePlan s l plan plan')
    (hc : s.Live c) (depth : Nat) {x : SeenArc}
    (hx : (x.1, x.2.2) ∈ (s.data c).out.entries ∨ (x.1, x.2.2) ∈ (s.data c).inbound.entries)
    (w : Walk) :
    Alongside s l G (p.visit who plan beneath c depth x w)
      (p'.visit who plan' beneath' c depth x w) (· = ·) := by
  obtain ⟨key, direction, stored⟩ := x
  unfold PlannedLevel.visit
  have htime : plan'.timeLimit = plan.timeLimit := (congrArg Plan.timeLimit hplan.rest :)
  have hrank : plan'.rank = plan.rank := (congrArg Plan.rank hplan.rest :)
  simp only [htime, hrank]
  refine alongside_bind (alongside_same _) fun _ _ _ => ?_
  refine alongside_bind (M := fun found found' => found = found' ∧ s.lookupKey key = found)
    (alongside_read fun _ => ⟨rfl, rfl⟩) ?_
  rintro found _ ⟨rfl, hfound⟩
  cases found with
  | none => exact alongside_pure rfl
  | some neighbor =>
    refine alongside_holding fun g => alongside_bind alongside_id ?_
    rintro _ _ ⟨t, rfl, rfl⟩
    have hvertex : p'.allowsVertex { s with locks := t, labels := l } neighbor =
        p.allowsVertex { s with locks := t } neighbor := hp.vertex neighbor
    have hcandidate : PlannedLevel.candidate { s with locks := t, labels := l } c neighbor
        direction stored depth = PlannedLevel.candidate { s with locks := t } c neighbor
          direction stored depth := h.candidate_eq hc hx neighbor direction depth
    rw [hvertex, hcandidate]
    split
    · exact hp.alongside_consider hb plan.rank (h.placed.live_of_lookup hfound) _ _
    · exact alongside_pure rfl

theorem SameLevel.alongside_visitAll (hp : SameLevel s l p p')
    {visit visit' : SeenArc → Walk → Action (Bool × Walk)} {arcs : List SeenArc}
    (hv : ∀ x ∈ arcs, ∀ w, Alongside s l G (visit x w) (visit' x w) (· = ·)) (matched : Bool)
    (w : Walk) :
    Alongside s l G (p.visitAll visit arcs matched w) (p'.visitAll visit' arcs matched w)
      (· = ·) := by
  induction arcs generalizing matched w with
  | nil => exact alongside_pure rfl
  | cons x rest ih =>
    refine alongside_bind (hv x List.mem_cons_self w) ?_
    rintro ⟨survived, w⟩ _ rfl
    dsimp only
    rw [hp.stopsAtMatch]
    split
    · exact alongside_pure rfl
    · exact ih (fun y hy => hv y (List.mem_cons_of_mem x hy)) _ w

theorem alongside_walkLevels (h : s.LegibleUnder l) (hplan : SamePlan s l plan plan')
    {levels levels' : List PlannedLevel} (hlevels : List.Forall₂ (SameLevel s l) levels levels')
    (depth : Nat) :
    AlongsideDescent s l (walkLevels who plan levels depth)
      (walkLevels who plan' levels' depth) := by
  induction hlevels generalizing depth with
  | nil => exact fun _ _ _ _ => alongside_pure rfl
  | @cons p p' below below' hp _ ih =>
    intro G c w hc
    refine alongside_bind (M := fun arcs arcs' => arcs = arcs' ∧ p.arcsAround (s.data c) = arcs)
      (alongside_read fun _ => ⟨(hp.arcs c hc).symm, rfl⟩) ?_
    rintro arcs _ ⟨rfl, rfl⟩
    exact hp.alongside_visitAll (fun x hx w => hp.alongside_visit h (ih (depth + 1)) hplan hc depth
      (PlannedLevel.stored_of_mem_arcsAround hx) w) false w

namespace Action

variable (h : s.LegibleUnder l)
include h

theorem alongside_walk (hplan : SamePlan s l plan plan') :
    Alongside s l G (plan.walk who) (plan'.walk who) (· = ·) := by
  have hanchor : plan'.anchor = plan.anchor := (congrArg Plan.anchor hplan.rest :)
  unfold Plan.walk
  rw [hanchor]
  refine alongside_bind (alongside_find h plan.anchor) ?_
  rintro c _ ⟨rfl, hc⟩
  refine alongside_holding fun g => ?_
  refine alongside_bind (alongside_walkLevels h hplan hplan.levels 1 _ c {} hc) ?_
  rintro w _ rfl
  exact alongside_pure rfl

theorem alongside_plan (q : Query) :
    Alongside s l G (Action.plan q) (Action.plan q) (SamePlan s l) :=
  alongside_bind (M := SameOutcome (SamePlan s l)) (alongside_read fun t => sameOutcome_plan h q t)
    fun _ _ hsame => alongside_ofExcept hsame

theorem alongside_neighborhood (q : Query) :
    Alongside s l G (neighborhood who q) (neighborhood who q) (· = ·) := by
  refine alongside_bind (alongside_plan h q) fun p p' hplan => ?_
  refine alongside_bind (alongside_walk h hplan) ?_
  rintro w _ rfl
  have hwindow : ∀ entries, p'.window entries = p.window entries := fun entries => by
    rw [hplan.rest]
    rfl
  have hsort : p'.sortBy = p.sortBy := (congrArg Plan.sortBy hplan.rest :)
  have hdirection : p'.direction = p.direction := (congrArg Plan.direction hplan.rest :)
  rw [hwindow, hsort, hdirection]
  exact alongside_pure rfl

theorem alongside_aggregate (q : Query) :
    Alongside s l G (aggregate who q) (aggregate who q) (· = ·) := by
  refine alongside_bind (alongside_plan h q) fun p p' hplan => ?_
  refine alongside_bind (alongside_walk h hplan) ?_
  rintro w _ rfl
  exact alongside_pure rfl

/-- The answer of a query, read in another way. -/
theorem alongside_ofNeighborhood {α : Type} (q : Query) (f : QueryResult → α) :
    Alongside s l G (do return f (← neighborhood who q)) (do return f (← neighborhood who q))
      (· = ·) := by
  refine alongside_bind (alongside_neighborhood h q) ?_
  rintro r _ rfl
  exact alongside_pure rfl

end Action

end Arcbase
