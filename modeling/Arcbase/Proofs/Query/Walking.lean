import Arcbase.Proofs.Action.Answering
import Arcbase.Proofs.Query.Paths
import Arcbase.Proofs.Store.TwoSided
set_option autoImplicit false

/-!
# Walks find what queries ask for

A walk that is not stopped ends with exactly what its query collects, in the same order
(`answers_walkLevels`): what is pushed before the levels below are entered is taken back
where they do not match, and a level that stops at its first match collects nothing.
-/

namespace Arcbase

open Guard Store Arcbase.Action

namespace Walk

variable {w : Walk} {c : Candidate}

/-- What comes of a part of a walk: whether something was found and what was added to the
pool, or a failure, which shows that something was not available. -/
def Tells (w : Walk) (found : Bool) (gain : List Entry) (available : Prop) :
    Except Error (Bool × Walk) → Prop
  | .ok (m, w') => m = found ∧ w'.pool = w.pool ++ gain
  | .error _ => ¬ available

theorem evaluate_of_steady {e : Expression} (h : e.Steady) (w : Walk) (c : Candidate) :
    ∃ w', w.evaluate e c = .ok (e.valueOn c, w') ∧ w'.pool = w.pool := by
  simp only [evaluate, h c w.registers]
  exact ⟨_, rfl, rfl⟩

theorem passes_of_steady {condition : Option Expression} (h : ∀ e ∈ condition, e.Steady)
    (w : Walk) (c : Candidate) :
    ∃ w', w.passes condition c = .ok (c.fulfils condition, w') ∧ w'.pool = w.pool := by
  cases condition with
  | none => exact ⟨w, rfl, rfl⟩
  | some e =>
    obtain ⟨w', heval, hpool⟩ := evaluate_of_steady (h e rfl) w c
    exact ⟨w', by rw [passes, heval]; rfl, hpool⟩

theorem collectCandidate_of_steady {rank : Option Expression} (h : ∀ e ∈ rank, e.Steady)
    (l : Level) (w : Walk) (c : Candidate) :
    ∃ w', w.collectCandidate l.collect rank c = .ok w' ∧ w'.pool = w.pool ++ l.collects rank c := by
  unfold collectCandidate Level.collects
  by_cases hl : l.collect = .collect
  · rw [if_pos hl, if_pos hl]
    cases rank with
    | none => exact ⟨_, rfl, rfl⟩
    | some e =>
      obtain ⟨w', heval, hpool⟩ := evaluate_of_steady (h e rfl) w c
      dsimp only
      rw [heval]
      exact ⟨_, rfl, congrArg (· ++ _) hpool⟩
  · rw [if_neg hl, if_neg hl]
    exact ⟨w, rfl, (List.append_nil _).symm⟩

end Walk

/-- The expressions of a level are steady. -/
def Level.Steady (l : Level) : Prop :=
  (∀ e ∈ l.filter, e.Steady) ∧ ∀ e ∈ l.postFilter, e.Steady

/-- The expressions of a query are steady. -/
def Query.Steady (q : Query) : Prop := (∀ e ∈ q.rank, e.Steady) ∧ ∀ l ∈ q.levels, l.Steady

namespace Store

/-- Whether all vertices that levels reach from an anchor, the last one of a path, can be
held by a thread that holds the path: the far vertices of the arcs that each level looks at. -/
def Available (s : Store) (G : List Guard) (me : Thread) :
    List Level → Nat → List CellId → CellId → Prop
  | [], _, _, _ => True
  | l :: below, depth, path, a => l.asserts s a = true → ∀ x ∈ l.arcs s a,
      s.CanRead G me path (s.farVertex x) ∧
        (l.enters s a depth x = true →
          s.Available G me below (depth + 1) (s.farVertex x :: path) (s.farVertex x))

variable {s : Store}

/-- In a two-sided store the far vertex of every arc is registered. -/
theorem TwoSided.farVertex (h : s.TwoSided) {a : CellId} (ha : a ∈ s.registered)
    {direction : Direction} {x : SeenArc} (hx : x ∈ (s.data a).arcsOn direction) :
    s.lookupKey x.1 = some (s.farVertex x) ∧ s.farVertex x ∈ s.registered := by
  have hknown : ∃ m ∈ s.registered, s.keyOf m = x.1 := by
    refine h.known a ha x.1 ?_
    simp only [VertexData.arcsOn, List.mem_append] at hx
    rcases hx with hx | hx
    · split at hx
      · obtain ⟨⟨n, arc⟩, hm, rfl⟩ := List.mem_map.1 hx
        exact .inl (List.ne_nil_of_mem (ArcIndex.mem_entries_iff.1 hm))
      · exact absurd hx List.not_mem_nil
    · split at hx
      · obtain ⟨⟨n, arc⟩, hm, rfl⟩ := List.mem_map.1 hx
        exact .inr (List.ne_nil_of_mem (ArcIndex.mem_entries_iff.1 hm))
      · exact absurd hx List.not_mem_nil
  obtain ⟨m, hm, hkey⟩ := hknown
  have hlook : s.lookupKey x.1 = some m := hkey ▸ (h.registered m hm).1
  have hfar : s.farVertex x = m := by rw [Store.farVertex, hlook]; rfl
  rw [hfar]
  exact ⟨hlook, hm⟩

end Store

/-! ## One candidate -/

variable {s : Store} {G : List Guard} {p : PlannedLevel} {l : Level} {rank : Option Expression}
  {beneath : Descent} {found : Bool} {gain : List Entry} {available : Prop}

/-- What a candidate adds that survives. -/
theorem answers_consider (hp : p.Serves s l) (hl : l.Steady) (hrank : ∀ e ∈ rank, e.Steady)
    {b : CellId} (c : Candidate) (w : Walk)
    (hb : ∀ w, Answers s G (beneath b w) (w.Tells found gain available)) :
    Answers s G (p.consider rank beneath b c w)
      (w.Tells (c.fulfils l.filter && found && c.fulfils l.postFilter)
        (if c.fulfils l.filter && found && c.fulfils l.postFilter then l.collects rank c ++ gain
          else [])
        (c.fulfils l.filter = true → available)) := by
  obtain ⟨w₁, hpass, hpool₁⟩ := Walk.passes_of_steady hl.1 w c
  obtain ⟨w₂, hcollect, hpool₂⟩ := Walk.collectCandidate_of_steady hrank l w₁ c
  unfold PlannedLevel.consider
  rw [hp.predicate, hp.collect, hp.postFilter, hpass]
  refine answers_bind (M := (· = .ok (c.fulfils l.filter, w₁))) (answers_ofExcept rfl)
    (fun e he => nomatch he) fun x hx => ?_
  cases hx
  cases hfilter : c.fulfils l.filter with
  | false =>
    refine answers_pure ⟨rfl, ?_⟩
    simpa using hpool₁
  | true =>
    dsimp only
    rw [hcollect]
    refine answers_bind (M := (· = .ok w₂)) (answers_ofExcept rfl) (fun e he => nomatch he)
      fun x hx => ?_
    cases hx
    refine answers_bind (hb w₂) (fun e he havail => he (havail rfl)) fun x hx => ?_
    obtain ⟨m, w₃⟩ := x
    obtain ⟨rfl, hpool₃⟩ := hx
    have hpool : w₃.pool = w.pool ++ (l.collects rank c ++ gain) := by
      rw [hpool₃, hpool₂, hpool₁, List.append_assoc]
    have hundo : (w₃.truncate w.pool.length).pool = w.pool ++ [] := by
      rw [Walk.truncate, hpool, List.append_nil]
      exact List.take_left' rfl
    cases m with
    | false => exact answers_pure ⟨rfl, hundo⟩
    | true =>
      obtain ⟨w₄, hpost, hpool₄⟩ := Walk.passes_of_steady hl.2 w₃ c
      dsimp only
      rw [hpost]
      refine answers_bind (M := (· = .ok (c.fulfils l.postFilter, w₄))) (answers_ofExcept rfl)
        (fun e he => nomatch he) fun x hx => ?_
      cases hx
      cases hf : c.fulfils l.postFilter with
      | false =>
        refine answers_pure ⟨rfl, ?_⟩
        simpa [Walk.truncate, hpool₄] using hundo
      | true => exact answers_pure ⟨rfl, hpool₄.trans hpool⟩

/-- What an arc adds that survives.  Its far vertex has to be held. -/
theorem answers_visit (hp : p.Serves s l) (hl : l.Steady) {plan : Plan}
    (hrank : ∀ e ∈ plan.rank, e.Steady) (htime : plan.timeLimit = none) {who : Caller}
    {a : CellId} {depth : Nat} {x : SeenArc} (hfar : s.lookupKey x.1 = some (s.farVertex x))
    {below : CellId → Bool} {deeper : CellId → List Entry} (w : Walk)
    (hb : ∀ g : Guard, g.thread = who.thread → g.item.slot = s.farVertex x → ∀ w,
      Answers s (g :: G) (beneath (s.farVertex x) w)
        (w.Tells (below (s.farVertex x)) (deeper (s.farVertex x)) available)) :
    Answers s G (p.visit who plan beneath a depth x w)
      (w.Tells (l.survives s a depth x below)
        (if l.survives s a depth x below then l.gain s a depth x plan.rank deeper else [])
        (s.CanRead G who.thread [] (s.farVertex x) ∧
          (l.enters s a depth x = true → available))) := by
  unfold PlannedLevel.visit Walk.checkTime
  rw [htime]
  refine answers_bind (M := (· = .ok ())) (answers_ofExcept rfl) (fun e he => nomatch he)
    fun _ _ => ?_
  refine answers_bind (M := (· = .ok (some (s.farVertex x)))) (answers_read fun t => ?_)
    (fun e he => nomatch he) fun n hn => ?_
  · exact congrArg Except.ok hfar
  cases hn
  refine answers_holding (fun e hcannot havail => hcannot havail.1) fun g hme hslot => ?_
  refine answers_bind (M := fun r => ∃ t, r = .ok { s with locks := t }) (answers_read fun t =>
    ⟨t, rfl⟩) (fun e he => nomatch he.choose_spec) fun s' hs' => ?_
  obtain ⟨t, ht⟩ := hs'
  cases ht
  have hallows : p.allowsVertex { s with locks := t } (s.farVertex x) =
      l.vertex.all (·.admits s (s.farVertex x)) := hp.vertex (s.farVertex x)
  dsimp only
  rw [hallows]
  cases hv : l.vertex.all (·.admits s (s.farVertex x)) with
  | false =>
    refine answers_pure ⟨?_, ?_⟩ <;> simp [Level.survives, Level.enters, hv]
  | true =>
    refine (answers_consider hp hl hrank (Level.candidate s a depth x) _ (hb g hme hslot)).weaken
      fun r hr => ?_
    cases r with
    | error e =>
      intro havail
      exact hr fun hf => havail.2 (by rw [Level.enters, hv, hf]; rfl)
    | ok y =>
      simpa [Level.survives, Level.enters, Level.gain, hv, Walk.Tells] using hr

/-! ## The arcs of a level -/

/-- What the arcs of a level add, one after the other.  A level that stops at its first
match adds nothing, so that it does not matter which arcs it leaves out. -/
theorem answers_visitAll {visit : SeenArc → Walk → Action (Bool × Walk)}
    {survives : SeenArc → Bool} {adds : SeenArc → List Entry} {available : SeenArc → Prop}
    (hstops : p.stopsAtMatch = true → ∀ x, adds x = []) (arcs : List SeenArc)
    (hv : ∀ x ∈ arcs, ∀ w, Answers s G (visit x w)
      (w.Tells (survives x) (if survives x then adds x else []) (available x)))
    (matched : Bool) (w : Walk) :
    Answers s G (p.visitAll visit arcs matched w)
      (w.Tells (matched || arcs.any survives) ((arcs.filter survives).flatMap adds)
        (∀ x ∈ arcs, available x)) := by
  induction arcs generalizing matched w with
  | nil => exact answers_pure ⟨by simp, by simp⟩
  | cons x rest ih =>
    refine answers_bind (hv x List.mem_cons_self w)
      (fun e he havail => he (havail x List.mem_cons_self)) fun y hy => ?_
    obtain ⟨m, w₁⟩ := y
    obtain ⟨rfl, hpool⟩ := hy
    dsimp only
    by_cases hstop : (survives x && p.stopsAtMatch) = true
    · rw [if_pos hstop]
      obtain ⟨hsurvives, hst⟩ := Bool.and_eq_true_iff.1 hstop
      have hnone : ∀ l : List SeenArc, l.flatMap adds = [] := fun l =>
        List.flatMap_eq_nil_iff.2 fun z _ => hstops hst z
      refine answers_pure ⟨by simp [hsurvives], ?_⟩
      rw [hpool, hnone, hsurvives, if_pos rfl, hstops hst]
    · rw [if_neg hstop]
      refine (ih (fun z hz => hv z (List.mem_cons_of_mem x hz)) (matched || survives x) w₁).weaken
        fun r hr => ?_
      cases r with
      | error e => exact fun havail => hr fun z hz => havail z (List.mem_cons_of_mem x hz)
      | ok y =>
        obtain ⟨hm, hp⟩ := hr
        refine ⟨by rw [hm, List.any_cons, Bool.or_assoc], ?_⟩
        rw [hp, hpool, List.append_assoc]
        cases hs : survives x <;> simp [hs]

/-! ## Chains of levels -/

/-- A walk of a chain of levels from an anchor that is held, by way of a path. -/
theorem answers_walkLevels (hs : s.TwoSided) {who : Caller} {plan : Plan}
    (hrank : ∀ e ∈ plan.rank, e.Steady) (htime : plan.timeLimit = none)
    {ps : List PlannedLevel} {ls : List Level} (hserving : Serving s ps ls)
    (hsteady : ∀ l ∈ ls, l.Steady) (depth : Nat) {path : List Guard}
    (hpath : ∀ g ∈ path, g.thread = who.thread) {a : CellId} (ha : a ∈ s.registered) (w : Walk) :
    Answers s (path ++ G) (walkLevels who plan ps depth a w)
      (w.Tells (s.matchesLevels ls depth a) (s.collected plan.rank ls depth a)
        (s.Available G who.thread ls depth (path.map fun g => g.item.slot) a)) := by
  induction hserving generalizing depth path a w with
  | nil => exact answers_pure ⟨rfl, (List.append_nil _).symm⟩
  | @cons p ps l ls here stops below ih =>
    have hlevel : ∀ l' ∈ ls, l'.Steady := fun l' hl' => hsteady l' (List.mem_cons_of_mem l hl')
    refine answers_bind (M := (· = .ok (if l.asserts s a then l.arcs s a else [])))
      (answers_read fun t => congrArg Except.ok (here.arcs a)) (fun e he => nomatch he)
      fun arcs harcs => ?_
    cases harcs
    have hstops : p.stopsAtMatch = true → ∀ x,
        l.gain s a depth x plan.rank (s.collected plan.rank ls (depth + 1)) = [] := by
      intro hstop x
      obtain ⟨hl, hls⟩ := anyCollects_cons_eq_false.1 (stops hstop)
      exact Level.gain_eq_nil hl (collected_eq_nil s plan.rank hls _ _)
    have hvisit : ∀ x ∈ l.arcs s a, ∀ w, Answers s (path ++ G)
        (p.visit who plan (walkLevels who plan ps (depth + 1)) a depth x w)
        (w.Tells (l.survives s a depth x (s.matchesLevels ls (depth + 1)))
          (if l.survives s a depth x (s.matchesLevels ls (depth + 1)) then
            l.gain s a depth x plan.rank (s.collected plan.rank ls (depth + 1)) else [])
          (s.CanRead G who.thread (path.map fun g => g.item.slot) (s.farVertex x) ∧
            (l.enters s a depth x = true → s.Available G who.thread ls (depth + 1)
              (s.farVertex x :: path.map fun g => g.item.slot) (s.farVertex x)))) := by
      intro x hx w
      obtain ⟨hlook, hfar⟩ := hs.farVertex ha (List.mem_filter.1 hx).1
      rw [← canRead_append hpath]
      refine answers_visit here (hsteady l List.mem_cons_self) hrank htime hlook w
        fun g hme hslot w => ?_
      rw [← hslot]
      exact ih hlevel (depth + 1) (List.forall_mem_cons.2 ⟨hme, hpath⟩) (hslot ▸ hfar) w
    rw [Store.matchesLevels, Store.collected, Store.Available]
    cases hassert : l.asserts s a with
    | false => exact answers_pure ⟨rfl, (List.append_nil _).symm⟩
    | true =>
      refine (answers_visitAll hstops _ hvisit false w).weaken fun r hr => ?_
      cases r with
      | error e => exact fun havail => hr (havail rfl)
      | ok y => simpa [Walk.Tells] using hr

end Arcbase
