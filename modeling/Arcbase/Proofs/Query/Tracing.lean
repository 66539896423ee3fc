import Arcbase.Proofs.Action.Answering
import Arcbase.Proofs.Query.Paths
set_option autoImplicit false

/-!
# The trace of a walk

Expressions may write into registers, so that what a walk collects depends on everything that
was evaluated before.  A *trace* is what a walk leaves behind if all of it is written down:
the arcs that each level visited, what became of every one, the evaluations on the way, and
the trace beneath it (`Visits`).  Two things are read off a trace.

* `Visits.evaluations`: all evaluations in their order, those of vetoed candidates included;
* `Visits.entries`: what is collected, which is what its survivors collect.

A trace is right for a store and a chain of levels (`Records`) if every arc is the next one to
be visited, and became what its level's conditions make of it.  Every walk that comes to its
end has one (`answers_trace`): the registers go through its evaluations (`Threaded`), and the
pool is the one before with its entries behind.
-/

namespace Arcbase

open Guard Store Arcbase.Action

/-! ## Evaluations -/

/-- An evaluation, with the registers before and after. -/
structure Evaluation where
  expression : Expression
  candidate : Candidate
  before : Registers
  value : Binary64
  after : Registers

/-- The value and the registers are what the expression makes of the candidate. -/
structure Evaluation.Genuine (v : Evaluation) : Prop where
  value : (v.expression.evaluate v.candidate v.before).result = .ok v.value
  after : (v.expression.evaluate v.candidate v.before).registers = v.after

/-- Evaluations each of which starts with the registers that the one before it left. -/
inductive Threaded : Registers → List Evaluation → Registers → Prop where
  | nil (r : Registers) : Threaded r [] r
  | cons {v : Evaluation} {vs : List Evaluation} {r : Registers} (here : v.Genuine)
      (later : Threaded v.after vs r) : Threaded v.before (v :: vs) r

theorem Threaded.append {r r₁ r₂ : Registers} {vs vs' : List Evaluation} (h : Threaded r vs r₁)
    (h' : Threaded r₁ vs' r₂) : Threaded r (vs ++ vs') r₂ := by
  induction h with
  | nil => exact h'
  | cons here _ ih => exact .cons here (ih h')

/-- A condition is evaluated on a candidate, with the given verdict. -/
def Judged (condition : Option Expression) (c : Candidate) (vs : List Evaluation)
    (verdict : Bool) : Prop :=
  match condition with
  | none => vs = [] ∧ verdict = true
  | some e => ∃ v, vs = [v] ∧ v.expression = e ∧ v.candidate = c ∧ truthy v.value = verdict

/-- A level collects a candidate or not, with its rank as it is evaluated. -/
def Collects (policy : CollectPolicy) (rank : Option Expression) (c : Candidate)
    (vs : List Evaluation) (own : List Entry) : Prop :=
  if policy = .collect then
    match rank with
    | none => vs = [] ∧ own = [⟨c.arc, c.vertex, c.depth, none⟩]
    | some e => ∃ v, vs = [v] ∧ v.expression = e ∧ v.candidate = c ∧
        own = [⟨c.arc, c.vertex, c.depth, some v.value⟩]
  else vs = [] ∧ own = []

/-- What is collected of a candidate shows it, with a rank or without. -/
theorem Collects.entry {policy : CollectPolicy} {rank : Option Expression} {c : Candidate}
    {vs : List Evaluation} {own : List Entry} (h : Collects policy rank c vs own) :
    ∀ e ∈ own, ∃ value, e = ⟨c.arc, c.vertex, c.depth, value⟩ := by
  intro e he
  unfold Collects at h
  split at h
  · split at h
    · obtain ⟨_, rfl⟩ := h
      exact ⟨_, List.mem_singleton.1 he⟩
    · obtain ⟨v, _, _, _, rfl⟩ := h
      exact ⟨_, List.mem_singleton.1 he⟩
  · obtain ⟨_, rfl⟩ := h
    cases he

/-! ## Traces -/

/-- What became of an arc: its vertex is gone or not allowed, its candidate failed the filter,
the vertex did not match the levels below, the post-filter failed, or none of these. -/
inductive Fate where
  | passedOver
  | refused
  | unmatched
  | vetoed
  | survived
  deriving DecidableEq, Repr

/-- A visit of an arc: what became of it, the evaluations before and after the levels below
were walked, and what its level collected of it for the time being. -/
structure Visit where
  arc : SeenArc
  fate : Fate
  filter : List Evaluation := []
  rank : List Evaluation := []
  own : List Entry := []
  post : List Evaluation := []

namespace Visit

def survives (v : Visit) : Bool := v.fate == .survived

/-- Whether the levels below were walked. -/
def descends (v : Visit) : Bool := v.fate != .passedOver && v.fate != .refused

end Visit

/-- The visits of a level, one after the other, each with the visits beneath it. -/
inductive Visits where
  | none
  | add (visit : Visit) (beneath later : Visits)

namespace Visits

/-- Whether any candidate survived. -/
def matched : Visits → Bool
  | none => false
  | add v _ later => v.survives || later.matched

/-- The visits that their candidates survived, each with the visits beneath it. -/
def survivors : Visits → List (Visit × Visits)
  | none => []
  | add v beneath later => if v.survives then (v, beneath) :: later.survivors else later.survivors

/-- What is collected: of every survivor its own entry, if its level collects, and then what
is collected beneath it. -/
def entries : Visits → List Entry
  | none => []
  | add v beneath later => (if v.survives then v.own ++ beneath.entries else []) ++ later.entries

/-- All evaluations in their order. -/
def evaluations : Visits → List Evaluation
  | none => []
  | add v beneath later =>
    (v.filter ++ v.rank ++ beneath.evaluations ++ v.post) ++ later.evaluations

theorem entries_eq_flatMap (visits : Visits) :
    visits.entries = visits.survivors.flatMap fun x => x.1.own ++ x.2.entries := by
  induction visits with
  | none => rfl
  | add v beneath later _ ih =>
    rw [entries, survivors, ih]
    split <;> simp

theorem matched_iff_survivors (visits : Visits) :
    visits.matched = true ↔ visits.survivors ≠ [] := by
  induction visits with
  | none => simp [matched, survivors]
  | add v beneath later _ ih =>
    rw [matched, survivors]
    cases v.survives with
    | false => simpa using ih
    | true => simp

/-- Where nothing survives nothing is collected. -/
theorem entries_of_unmatched {visits : Visits} (h : visits.matched = false) :
    visits.entries = [] := by
  have hnone : visits.survivors = [] := by
    by_contra hsome
    rw [(matched_iff_survivors visits).2 hsome] at h
    cases h
  rw [entries_eq_flatMap, hnone]
  rfl

/-- The entries of a survivor and those beneath it stand together, its own first. -/
theorem infix_of_mem_survivors {visits : Visits} {x : Visit × Visits}
    (h : x ∈ visits.survivors) : x.1.own ++ x.2.entries <:+: visits.entries := by
  obtain ⟨earlier, later, hsplit⟩ := List.append_of_mem h
  rw [visits.entries_eq_flatMap, hsplit, List.flatMap_append, List.flatMap_cons]
  exact ⟨_, _, List.append_assoc _ _ _⟩

end Visits

/-! ## Traces of a chain of levels -/

namespace Store

/-- The arcs that a chain of levels looks at around an anchor. -/
def arcsAround (s : Store) : List PlannedLevel → CellId → List SeenArc
  | [], _ => []
  | level :: _, anchor => level.arcsAround (s.data anchor)

variable (s : Store) (rank : Option Expression)

/-- The visit of an arc is as its level's conditions have it, where `below` says whether its
vertex matched the levels below. -/
inductive Visited (level : PlannedLevel) (anchor : CellId) (depth : Nat) (below : Bool)
    (x : SeenArc) : Visit → Prop where
  | absent (gone : s.lookupKey x.1 = none) :
    Visited level anchor depth below x { arc := x, fate := .passedOver }
  | barred (found : s.lookupKey x.1 = some (s.farVertex x))
      (barred : level.allowsVertex s (s.farVertex x) = false) :
    Visited level anchor depth below x { arc := x, fate := .passedOver }
  | refused {filter : List Evaluation} (found : s.lookupKey x.1 = some (s.farVertex x))
      (allowed : level.allowsVertex s (s.farVertex x) = true)
      (filtered : Judged level.predicate (Level.candidate s anchor depth x) filter false) :
    Visited level anchor depth below x { arc := x, fate := .refused, filter }
  | unmatched {filter ranks : List Evaluation} {own : List Entry}
      (found : s.lookupKey x.1 = some (s.farVertex x))
      (allowed : level.allowsVertex s (s.farVertex x) = true)
      (filtered : Judged level.predicate (Level.candidate s anchor depth x) filter true)
      (collected : Collects level.collect rank (Level.candidate s anchor depth x) ranks own)
      (nested : below = false) :
    Visited level anchor depth below x { arc := x, fate := .unmatched, filter, rank := ranks, own }
  | vetoed {filter ranks post : List Evaluation} {own : List Entry}
      (found : s.lookupKey x.1 = some (s.farVertex x))
      (allowed : level.allowsVertex s (s.farVertex x) = true)
      (filtered : Judged level.predicate (Level.candidate s anchor depth x) filter true)
      (collected : Collects level.collect rank (Level.candidate s anchor depth x) ranks own)
      (nested : below = true)
      (judged : Judged level.postFilter (Level.candidate s anchor depth x) post false) :
    Visited level anchor depth below x
      { arc := x, fate := .vetoed, filter, rank := ranks, own, post }
  | survived {filter ranks post : List Evaluation} {own : List Entry}
      (found : s.lookupKey x.1 = some (s.farVertex x))
      (allowed : level.allowsVertex s (s.farVertex x) = true)
      (filtered : Judged level.predicate (Level.candidate s anchor depth x) filter true)
      (collected : Collects level.collect rank (Level.candidate s anchor depth x) ranks own)
      (nested : below = true)
      (judged : Judged level.postFilter (Level.candidate s anchor depth x) post true) :
    Visited level anchor depth below x
      { arc := x, fate := .survived, filter, rank := ranks, own, post }

/-- Visits of arcs by a chain of levels, in the order of the arcs.  Those beneath an arc that
was descended from are around its vertex, and a survivor may be the last arc to be visited. -/
inductive Records : List PlannedLevel → CellId → Nat → List SeenArc → Visits → Prop where
  | none (levels : List PlannedLevel) (anchor : CellId) (depth : Nat) :
    Records levels anchor depth [] .none
  | add {level : PlannedLevel} {levels : List PlannedLevel} {anchor : CellId} {depth : Nat}
      {x : SeenArc} {arcs : List SeenArc} {v : Visit} {beneath later : Visits}
      (here : s.Visited rank level anchor depth (levels.isEmpty || beneath.matched) x v)
      (below : Records levels (s.farVertex x) (depth + 1)
        (if v.descends then s.arcsAround levels (s.farVertex x) else []) beneath)
      (next : Records (level :: levels) anchor depth
        (if v.survives && level.stopsAtMatch then [] else arcs) later) :
    Records (level :: levels) anchor depth (x :: arcs) (.add v beneath later)

end Store

/-! ## What a walk writes down -/

namespace Walk

/-- The walk has come on by evaluations and entries. -/
structure Comes (w w' : Walk) (vs : List Evaluation) (gain : List Entry) : Prop where
  threaded : Threaded w.registers vs w'.registers
  pool : w'.pool = w.pool ++ gain

theorem Comes.refl (w : Walk) : w.Comes w [] [] := ⟨.nil _, (List.append_nil _).symm⟩

theorem Comes.trans {w w₁ w₂ : Walk} {vs vs' : List Evaluation} {gain gain' : List Entry}
    (h : w.Comes w₁ vs gain) (h' : w₁.Comes w₂ vs' gain') :
    w.Comes w₂ (vs ++ vs') (gain ++ gain') := by
  refine ⟨h.threaded.append h'.threaded, ?_⟩
  rw [h'.pool, h.pool, List.append_assoc]

/-- Truncation takes back all that was collected since, and no register. -/
theorem Comes.undo {w w' : Walk} {vs : List Evaluation} {gain : List Entry}
    (h : w.Comes w' vs gain) : w.Comes (w'.truncate w.pool.length) vs [] := by
  refine ⟨h.threaded, ?_⟩
  rw [truncate, h.pool, List.append_nil]
  exact List.take_left' rfl

variable {w w' : Walk} {c : Candidate}

theorem comes_of_evaluate {e : Expression} {x : Binary64} (h : w.evaluate e c = .ok (x, w')) :
    ∃ v : Evaluation, v.expression = e ∧ v.candidate = c ∧ v.value = x ∧ w.Comes w' [v] [] := by
  unfold evaluate at h
  dsimp only at h
  split at h
  next y hy =>
    obtain ⟨rfl, rfl⟩ := Prod.mk.inj (Except.ok.inj h)
    let v : Evaluation := ⟨e, c, w.registers, y, (e.evaluate c w.registers).registers⟩
    have hgenuine : v.Genuine := ⟨hy, rfl⟩
    exact ⟨v, rfl, rfl, rfl, .cons hgenuine (.nil _), (List.append_nil _).symm⟩
  next => cases h

theorem judged_of_passes {condition : Option Expression} {b : Bool}
    (h : w.passes condition c = .ok (b, w')) :
    ∃ vs, Judged condition c vs b ∧ w.Comes w' vs [] := by
  cases condition with
  | none =>
    obtain ⟨rfl, rfl⟩ := Prod.mk.inj (Except.ok.inj h)
    exact ⟨[], ⟨rfl, rfl⟩, .refl w⟩
  | some e =>
    rw [passes] at h
    cases heval : w.evaluate e c with
    | error cause => simp [heval, Except.map] at h
    | ok p =>
      obtain ⟨x, w₁⟩ := p
      obtain ⟨v, hexpression, hcandidate, rfl, hcomes⟩ := comes_of_evaluate heval
      rw [heval] at h
      obtain ⟨rfl, rfl⟩ := Prod.mk.inj (Except.ok.inj h)
      exact ⟨[v], ⟨v, rfl, hexpression, hcandidate, rfl⟩, hcomes⟩

theorem collects_of_collectCandidate {policy : CollectPolicy} {rank : Option Expression}
    (h : w.collectCandidate policy rank c = .ok w') :
    ∃ vs own, Collects policy rank c vs own ∧ w.Comes w' vs own := by
  unfold collectCandidate at h
  split at h
  next hcollect =>
    cases rank with
    | none =>
      obtain rfl := Except.ok.inj h
      refine ⟨[], [⟨c.arc, c.vertex, c.depth, none⟩], ?_, .nil _, rfl⟩
      unfold Collects
      rw [if_pos hcollect]
      exact ⟨rfl, rfl⟩
    | some e =>
      cases heval : w.evaluate e c with
      | error cause => simp [heval, bind, Except.bind] at h
      | ok p =>
        obtain ⟨x, w₁⟩ := p
        obtain ⟨v, hexpression, hcandidate, rfl, hcomes⟩ := comes_of_evaluate heval
        simp only [heval, bind, Except.bind] at h
        obtain rfl := Except.ok.inj h
        refine ⟨[v], [⟨c.arc, c.vertex, c.depth, some v.value⟩], ?_, hcomes.threaded, ?_⟩
        · unfold Collects
          rw [if_pos hcollect]
          exact ⟨v, rfl, hexpression, hcandidate, rfl⟩
        · rw [collect, hcomes.pool, List.append_nil]
  next hkeep =>
    obtain rfl := Except.ok.inj h
    refine ⟨[], [], ?_, .refl w⟩
    unfold Collects
    rw [if_neg hkeep]
    exact ⟨rfl, rfl⟩

end Walk

/-! ## One visit -/

variable {s : Store} {G : List Guard} {who : Caller} {plan : Plan} {level : PlannedLevel}
  {below : List PlannedLevel} {rank : Option Expression} {anchor : CellId} {depth : Nat}

/-- What is told of an outcome that is no failure. -/
def OnSuccess {α : Type} (Q : α → Prop) : Except Error α → Prop
  | .ok x => Q x
  | .error _ => True

/-- The visits of arcs by a chain of levels, as they are written down, bring a walk from one
point to another; `found` says whether anything survived. -/
def Traced (s : Store) (rank : Option Expression) (levels : List PlannedLevel) (anchor : CellId)
    (depth : Nat) (arcs : List SeenArc) (w : Walk) (found : Bool) (w' : Walk) : Prop :=
  ∃ visits : Visits, s.Records rank levels anchor depth arcs visits ∧ visits.matched = found ∧
    w.Comes w' visits.evaluations visits.entries

/-- The same of a single arc. -/
def TracedVisit (s : Store) (rank : Option Expression) (level : PlannedLevel)
    (below : List PlannedLevel) (anchor : CellId) (depth : Nat) (x : SeenArc) (w : Walk)
    (survived : Bool) (w' : Walk) : Prop :=
  ∃ (v : Visit) (beneath : Visits),
    s.Visited rank level anchor depth (below.isEmpty || beneath.matched) x v ∧
    s.Records rank below (s.farVertex x) (depth + 1)
      (if v.descends then s.arcsAround below (s.farVertex x) else []) beneath ∧
    v.survives = survived ∧
    w.Comes w' (v.filter ++ v.rank ++ beneath.evaluations ++ v.post)
      (if v.survives then v.own ++ beneath.entries else [])

/-- What is counted before a visit does not matter to it. -/
theorem TracedVisit.after {x : SeenArc} {w w₁ w' : Walk} {survived : Bool}
    (h : TracedVisit s rank level below anchor depth x w₁ survived w') (hw : w.Comes w₁ [] []) :
    TracedVisit s rank level below anchor depth x w survived w' := by
  obtain ⟨v, beneath, here, hbelow, hsurvives, hcomes⟩ := h
  exact ⟨v, beneath, here, hbelow, hsurvives, hw.trans hcomes⟩

/-- The visit of an arc that is not descended from. -/
theorem tracedVisit_of_shallow {x : SeenArc} {w w' : Walk} {v : Visit}
    (here : s.Visited rank level anchor depth (below.isEmpty || Visits.none.matched) x v)
    (hshallow : v.descends = false) (hdead : v.survives = false) (hrank : v.rank = [])
    (hpost : v.post = []) (hcomes : w.Comes w' v.filter []) :
    TracedVisit s rank level below anchor depth x w false w' := by
  refine ⟨v, .none, here, ?_, hdead, ?_⟩
  · rw [hshallow]
    exact .none _ _ _
  · rw [hdead, hrank, hpost]
    simpa [Visits.evaluations] using hcomes

/-- What comes of the vertex of a candidate, walked through the levels below. -/
abbrev Beneath (s : Store) (rank : Option Expression) (below : List PlannedLevel) (c : CellId)
    (depth : Nat) (w : Walk) : Except Error (Bool × Walk) → Prop :=
  OnSuccess fun y => ∃ found, y.1 = (below.isEmpty || found) ∧
    Traced s rank below c depth (s.arcsAround below c) w found y.2

theorem answers_consider_traced {x : SeenArc} (hfound : s.lookupKey x.1 = some (s.farVertex x))
    (hallowed : level.allowsVertex s (s.farVertex x) = true) {beneath : Descent}
    (hb : ∀ w, Answers s G (beneath (s.farVertex x) w)
      (Beneath s rank below (s.farVertex x) (depth + 1) w)) (w : Walk) :
    Answers s G
      (level.consider rank beneath (s.farVertex x) (Level.candidate s anchor depth x) w)
      (OnSuccess fun y => TracedVisit s rank level below anchor depth x w y.1 y.2) := by
  unfold PlannedLevel.consider
  refine answers_bind (M := (· = w.passes level.predicate (Level.candidate s anchor depth x)))
    (answers_ofExcept rfl) (fun _ _ => trivial) fun ⟨passed, w₁⟩ hpassed => ?_
  obtain ⟨filter, hfiltered, hcomes₁⟩ := Walk.judged_of_passes hpassed.symm
  cases passed with
  | false =>
    exact answers_pure (tracedVisit_of_shallow (.refused hfound hallowed hfiltered) rfl rfl rfl rfl
      hcomes₁)
  | true =>
    refine answers_bind
      (M := (· = w₁.collectCandidate level.collect rank (Level.candidate s anchor depth x)))
      (answers_ofExcept rfl) (fun _ _ => trivial) fun w₂ hcollected => ?_
    obtain ⟨ranks, own, hcollects, hcomes₂⟩ := Walk.collects_of_collectCandidate hcollected.symm
    refine answers_bind (hb w₂) (fun _ _ => trivial) fun ⟨m, w₃⟩ hm => ?_
    obtain ⟨found, hfoundBelow, visits, hrecords, hmatched, hcomes₃⟩ := hm
    obtain rfl : m = (below.isEmpty || visits.matched) := hmatched ▸ hfoundBelow
    have hcomes := (hcomes₁.trans hcomes₂).trans hcomes₃
    cases hnested : (below.isEmpty || visits.matched) with
    | false =>
      refine answers_pure ⟨_, visits, .unmatched hfound hallowed hfiltered hcollects hnested,
        hrecords, rfl, ?_⟩
      simpa [Visit.survives] using hcomes.undo
    | true =>
      refine answers_bind
        (M := (· = w₃.passes level.postFilter (Level.candidate s anchor depth x)))
        (answers_ofExcept rfl) (fun _ _ => trivial) fun ⟨passed, w₄⟩ hpassed => ?_
      obtain ⟨post, hjudged, hcomes₄⟩ := Walk.judged_of_passes hpassed.symm
      have hall := hcomes.trans hcomes₄
      cases passed with
      | false =>
        refine answers_pure ⟨_, visits,
          .vetoed hfound hallowed hfiltered hcollects hnested hjudged, hrecords, rfl, ?_⟩
        exact hall.undo
      | true =>
        refine answers_pure ⟨_, visits,
          .survived hfound hallowed hfiltered hcollects hnested hjudged, hrecords, rfl, ?_⟩
        simpa [Visit.survives] using hall

theorem answers_visit_traced {beneath : Descent} (x : SeenArc)
    (hb : ∀ g : Guard, g.thread = who.thread → ∀ w, Answers s (g :: G) (beneath (s.farVertex x) w)
      (Beneath s plan.rank below (s.farVertex x) (depth + 1) w)) (w : Walk) :
    Answers s G (level.visit who plan beneath anchor depth x w)
      (OnSuccess fun y => TracedVisit s plan.rank level below anchor depth x w y.1 y.2) := by
  unfold PlannedLevel.visit
  refine answers_bind (M := fun _ => True) (answers_ofExcept trivial) (fun _ _ => trivial)
    fun _ _ => ?_
  refine answers_bind (M := (· = .ok (s.lookupKey x.1))) (answers_read fun _ => rfl)
    (fun _ _ => trivial) fun found hfound => ?_
  obtain rfl := Except.ok.inj hfound
  have hstays : ∀ arcs vertices, w.Comes
      { w with visitedArcs := arcs, visitedVertices := vertices } [] [] :=
    fun _ _ => ⟨.nil _, (List.append_nil _).symm⟩
  cases hlook : s.lookupKey x.1 with
  | none =>
    exact answers_pure (tracedVisit_of_shallow (.absent hlook) rfl rfl rfl rfl (hstays _ _))
  | some neighbor =>
    have hfar : s.farVertex x = neighbor := by rw [Store.farVertex, hlook]; rfl
    subst hfar
    refine answers_holding (fun _ _ => trivial) fun g hme hslot => ?_
    refine answers_bind (M := fun r => ∃ t, r = .ok { s with locks := t })
      (answers_read fun t => ⟨t, rfl⟩) (fun _ _ => trivial) fun s' hs' => ?_
    obtain ⟨t, ht⟩ := hs'
    cases ht
    dsimp only
    have hsame : level.allowsVertex { s with locks := t } (s.farVertex x) =
        level.allowsVertex s (s.farVertex x) := rfl
    rw [hsame]
    cases hallowed : level.allowsVertex s (s.farVertex x) with
    | false =>
      exact answers_pure
        (tracedVisit_of_shallow (.barred hlook hallowed) rfl rfl rfl rfl (hstays _ _))
    | true =>
      rw [if_pos rfl]
      refine Answers.weaken (answers_consider_traced hlook hallowed (hb g hme) _) fun r hr => ?_
      cases r with
      | error e => trivial
      | ok y => exact TracedVisit.after hr (hstays _ _)

/-! ## The visits of a level -/

theorem answers_visitAll_traced {visit : SeenArc → Walk → Action (Bool × Walk)}
    (hvisit : ∀ x w, Answers s G (visit x w)
      (OnSuccess fun y => TracedVisit s rank level below anchor depth x w y.1 y.2))
    (arcs : List SeenArc) (matched : Bool) (w : Walk) :
    Answers s G (level.visitAll visit arcs matched w)
      (OnSuccess fun y => ∃ found, y.1 = (matched || found) ∧
        Traced s rank (level :: below) anchor depth arcs w found y.2) := by
  induction arcs generalizing matched w with
  | nil => exact answers_pure ⟨false, (Bool.or_false _).symm, .none, .none _ _ _, rfl, .refl w⟩
  | cons x rest ih =>
    refine answers_bind (hvisit x w) (fun _ _ => trivial) fun ⟨survived, w₁⟩ hx => ?_
    obtain ⟨v, beneath, hhere, hbelow, rfl, hcomes⟩ := hx
    dsimp only
    by_cases hstop : (v.survives && level.stopsAtMatch) = true
    · rw [if_pos hstop]
      refine answers_pure ⟨true, (Bool.or_true _).symm, .add v beneath .none,
        .add hhere hbelow ?_, ?_, ?_⟩
      · rw [if_pos hstop]
        exact .none _ _ _
      · rw [Visits.matched, (Bool.and_eq_true_iff.1 hstop).1]
        rfl
      · exact hcomes.trans (.refl w₁)
    · rw [if_neg hstop]
      refine (ih (matched || v.survives) w₁).weaken fun r hr => ?_
      cases r with
      | error e => trivial
      | ok y =>
        obtain ⟨found, hfound, visits, hrecords, hmatched, hlater⟩ := hr
        refine ⟨v.survives || found, by rw [hfound, Bool.or_assoc], .add v beneath visits,
          .add hhere hbelow ?_, ?_, hcomes.trans hlater⟩
        · rwa [if_neg hstop]
        · rw [Visits.matched, hmatched]

/-- A walk through a chain of levels that comes to its end has a trace. -/
theorem answers_trace (levels : List PlannedLevel) (depth : Nat) (anchor : CellId) (w : Walk) :
    Answers s G (walkLevels who plan levels depth anchor w)
      (Beneath s plan.rank levels anchor depth w) := by
  induction levels generalizing G depth anchor w with
  | nil => exact answers_pure ⟨false, rfl, .none, .none _ _ _, rfl, .refl w⟩
  | cons level below ih =>
    refine answers_bind (M := (· = .ok (s.arcsAround (level :: below) anchor)))
      (answers_read fun _ => rfl) (fun _ _ => trivial) fun arcs harcs => ?_
    obtain rfl := Except.ok.inj harcs
    refine (answers_visitAll_traced (fun x w => ?_) _ false w).weaken fun r hr => hr
    exact answers_visit_traced x (fun g _ w => ih (depth + 1) (s.farVertex x) w) w

end Arcbase
