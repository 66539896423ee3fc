import Arcbase.Proofs.Session.Querying
import Arcbase.Proofs.Session.Roundtrip
import Mathlib
set_option autoImplicit false

/-!
# Queries of one level

A query of one level finds the arcs around its anchor that its probe selects, each with the
vertex at its far end, in the order of the index (`answers_oneLevel`).  It may be planned for
every sound identifier and probe if the limit on nesting leaves room for a vertex beside the
anchor (`plan_oneLevel`).
-/

namespace Arcbase

open Guard Store Arcbase.Action

/-! ## Idle callers -/

/-- The caller holds nothing, and nobody else holds anything writable. -/
def Session.IdleFor (s : Session) (who : Caller) : Prop :=
  ∀ name g, s.handle? name = some g → name.thread ≠ who.thread ∧ g.mode ≠ .writable

namespace Session

variable {agree : Agreement} {s : Session} {who : Caller}

theorem IdleFor.guards (h : s.IdleFor who) (hs : s.Sound agree) :
    (∀ g ∈ s.guards, g.thread ≠ who.thread) ∧ ∀ g ∈ s.guards, g.hold = .reader := by
  have hboth : ∀ g ∈ s.guards, g.thread ≠ who.thread ∧ g.hold = .reader := by
    intro g hg
    obtain ⟨name, hname⟩ := AssocMap.mem_values_iff.1 hg
    obtain ⟨hother, hmode⟩ := h name g hname
    rw [hs.owner name g hname]
    refine ⟨hother, ?_⟩
    cases hhold : g.hold with
    | reader => rfl
    | writer => exact absurd (congrArg Hold.mode hhold) hmode
  exact ⟨fun g hg => (hboth g hg).1, fun g hg => (hboth g hg).2⟩

theorem IdleFor.openTo (h : s.IdleFor who) (hs : s.Sound agree) :
    s.store.OpenTo s.guards who.thread := by
  obtain ⟨hidle, hread⟩ := h.guards hs
  intro c _
  refine canRead_of_idle hidle hread ?_ c
  exact hs.guarded.accounts.limit_pos

end Session

/-! ## Plans -/

variable {s : Store} {G : List Guard} {q : Query} {plan : Plan} {who : Caller} {a : CellId}
  {anchor : String} {p : Probe} {timeout : Option Nat}

theorem planNested_locks (t : LockTable) (levels : List Level) :
    planNested { s with locks := t } levels = s.planNested levels := by
  induction levels with
  | nil => rfl
  | cons l below ih =>
    simp only [planNested, ih]
    rfl

/-- Of the locks a plan reads the limit on nesting alone. -/
theorem plan_locks {t : LockTable} (h : s.locks.SameSettings t) :
    q.plan { s with locks := t } = q.plan s := by
  simp only [Query.plan, planNested_locks, h.limit]
  rfl

/-- The plan of a query of one level. -/
def Plan.oneLevel (anchor : String) (p : Probe) (f : ArcFilter) (timeout : Option Nat) : Plan :=
  { anchor
    root :=
      { filter := f, direction := p.direction, vertex := none, adjacent := none, predicate := none,
        postFilter := none, collect := .collect, stopsAtMatch := false }
    nested := []
    rank := none
    sortBy := .discovery
    direction := .ascending
    offset := 0
    hits := none
    timeout
    timeLimit := none }

theorem plan_oneLevel (hname : s.identifierFault? anchor = none) (hlimit : 1 < s.locks.limit)
    {f : ArcFilter} (hf : s.filterOf p = .ok f) (timeout : Option Nat) :
    (Query.oneLevel anchor p timeout).plan s = .ok (.oneLevel anchor p f timeout) := by
  have hroom : ¬ s.locks.limit ≤ 1 := Nat.not_le.2 hlimit
  have hlevel : s.planLevel { arc := p } false = .ok (Plan.oneLevel anchor p f timeout).root := by
    simp only [planLevel, hf]
    rfl
  simp only [Query.plan, Query.oneLevel, Query.depth, List.length_nil, hname, hroom, if_false]
  rw [hlevel]
  rfl

/-- What a planned query of one level goes by. -/
theorem planned_oneLevel (h : (Query.oneLevel anchor p timeout).plan s = .ok plan) :
    s.identifierFault? anchor = none ∧ 1 < s.locks.limit ∧
      ∃ f, s.filterOf p = .ok f ∧ plan = .oneLevel anchor p f timeout := by
  have hlimit : 1 < s.locks.limit := (serves_of_plan h).depth
  cases hname : s.identifierFault? anchor with
  | some fault => simp [Query.plan, Query.oneLevel, hname, bind, Except.bind, throw, throwThe,
      MonadExceptOf.throw] at h
  | none =>
    cases hf : s.filterOf p with
    | error e =>
      have hroom : ¬ s.locks.limit ≤ 1 := Nat.not_le.2 hlimit
      have hlevel : s.planLevel { arc := p } false = .error e := by
        simp only [planLevel, hf]
        rfl
      simp only [Query.plan, Query.oneLevel, Query.depth, List.length_nil, hname, hroom,
        if_false] at h
      rw [hlevel] at h
      cases h
    | ok f =>
      rw [plan_oneLevel hname hlimit hf] at h
      exact ⟨rfl, hlimit, f, rfl, (Except.ok.inj h).symm⟩

/-! ## What is found -/

namespace Store

/-- The arcs around a vertex that a probe selects. -/
def seen (s : Store) (a : CellId) (p : Probe) : List SeenArc :=
  ((s.data a).arcsOn p.direction).filter fun x => p.selects s.labels x.2.2

/-- The entry of an arc around the anchor of a query. -/
def entryOf (s : Store) (a : CellId) (x : SeenArc) : Entry :=
  let c := Level.candidate s a 1 x
  { arc := c.arc, vertex := c.vertex, depth := 1, rank := none }

theorem collected_oneLevel :
    (Query.oneLevel anchor p timeout).collected s a = (s.seen a p).map (s.entryOf a) := by
  have hgain : ∀ x, Level.gain { arc := p } s a 1 x none (s.collected none [] 2) =
      [s.entryOf a x] := fun _ => rfl
  have hsurvives : ∀ x, Level.survives { arc := p } s a 1 x (s.matchesLevels [] 2) = true :=
    fun _ => rfl
  have hall : (Level.arcs { arc := p } s a).filter
      (fun x => Level.survives { arc := p } s a 1 x (s.matchesLevels [] 2)) = s.seen a p :=
    List.filter_eq_self.2 fun x _ => hsurvives x
  have hcollected : (Query.oneLevel anchor p timeout).collected s a =
      ((Level.arcs { arc := p } s a).filter fun x =>
        Level.survives { arc := p } s a 1 x (s.matchesLevels [] 2)).flatMap fun x =>
          Level.gain { arc := p } s a 1 x none (s.collected none [] 2) := rfl
  rw [hcollected, hall]
  simp only [hgain]
  exact List.flatMap_pure_eq_map _ _

end Store

/-- In the order of discovery nothing is moved, and the whole is in the window. -/
theorem window_of_oneLevel (h : (Query.oneLevel anchor p timeout).plan s = .ok plan)
    (pool : List Entry) :
    plan.window (pool.mergeSort (Entry.before plan.sortBy plan.direction)) = pool := by
  obtain ⟨_, _, f, _, rfl⟩ := planned_oneLevel h
  have hsorted : pool.mergeSort (Entry.before .discovery .ascending) = pool :=
    List.mergeSort_of_pairwise (List.pairwise_of_forall fun _ _ => rfl)
  exact hsorted

theorem answers_plan (hplan : q.plan s = .ok plan) :
    Answers s G (Action.plan q) (· = .ok plan) := by
  intro t hset hacc
  refine ⟨_, t, rfl, hset, hacc, ?_⟩
  rw [plan_locks hset]
  exact hplan

/-- A query of one level tells the arcs that are seen. -/
theorem answers_oneLevel (hs : s.TwoSided)
    (hplan : (Query.oneLevel anchor p timeout).plan s = .ok plan)
    (hanchor : s.lookup anchor = some a)
    (havail : (Query.oneLevel anchor p timeout).Available s G who.thread a) :
    Answers s G (neighborhood who (.oneLevel anchor p timeout)) fun r =>
      ∃ result, r = .ok result ∧ result.entries = (s.seen a p).map (s.entryOf a) ∧
        result.total = (s.seen a p).length := by
  have hsteady : (Query.oneLevel anchor p timeout).Steady :=
    ⟨fun e he => (Option.not_mem_none e he).elim, fun l hl => by
      obtain rfl := List.mem_singleton.1 hl
      exact ⟨fun e he => (Option.not_mem_none e he).elim,
        fun e he => (Option.not_mem_none e he).elim⟩⟩
  refine answers_bind (answers_plan hplan) (fun _ he => nomatch he) fun plan' hplan' => ?_
  obtain rfl := Except.ok.inj hplan'
  refine answers_bind (answers_walk hs hplan rfl hsteady hanchor)
    (fun _ hcannot => absurd havail hcannot) fun w hw => answers_pure ⟨_, rfl, ?_, ?_⟩
  · rw [window_of_oneLevel hplan, hw, collected_oneLevel]
  · rw [hw, collected_oneLevel, List.length_map]

/-! ## The other ways to look -/

namespace Store

variable {f : ArcFilter} {n : VertexKey} {b : String} {c : CellId}

/-- What a filter accepts around a vertex is what its probe selects. -/
theorem matchingArcs_eq_seen (hf : s.filterOf p = .ok f) (a : CellId) :
    (s.data a).matchingArcs f p.direction = s.seen a p := by
  rw [VertexData.matchingArcs_eq]
  exact List.filter_congr fun x _ => test_of_ofProbe hf x.2.2

theorem hasMatchingArc_eq_seen (hf : s.filterOf p = .ok f) (a : CellId) :
    (s.data a).hasMatchingArc f p.direction none = decide (0 < (s.seen a p).length) := by
  rw [VertexData.hasMatchingArc, matchingArcs_eq_seen hf, Bool.eq_iff_iff, decide_eq_true_eq,
    List.length_pos_iff]
  simp

theorem arcsBetween_ne_nil_iff (hf : s.filterOf p = .ok f) :
    (s.data a).arcsBetween n f p.direction ≠ [] ↔ ∃ x ∈ s.seen a p, x.1 = n := by
  constructor
  · intro hne
    obtain ⟨arc, harc⟩ := List.exists_mem_of_ne_nil _ hne
    obtain ⟨side, hm, htest⟩ := VertexData.mem_arcsBetween_iff.1 harc
    exact ⟨(n, side, arc), List.mem_filter.2 ⟨hm, (test_of_ofProbe hf arc).symm.trans htest⟩, rfl⟩
  · rintro ⟨⟨n, side, arc⟩, hx, rfl⟩
    obtain ⟨hm, hselects⟩ := List.mem_filter.1 hx
    exact List.ne_nil_of_mem (VertexData.mem_arcsBetween_iff.2
      ⟨side, hm, (test_of_ofProbe hf arc).trans hselects⟩)

/-- An entry leads to the vertex that its arc is stored under. -/
theorem neighbor_entryOf (hs : s.Sound .equal) (ha : s.Live a) (hb : s.lookup b = some c)
    {x : SeenArc} (hx : x ∈ s.seen a p) : (s.entryOf a x).arc.neighbor = b ↔ x.1 = s.keyOf c := by
  have hfar := (hs.twoSided.farVertex ((mem_registered_iff hs.placed).2 ha)
    (List.mem_filter.1 hx).1).1
  have hkey : s.keyOf (s.farVertex x) = x.1 := hs.placed.key_of_lookup hfar
  obtain ⟨hlive, hid⟩ := hs.placed.of_lookup hb
  have hneighbor : (s.entryOf a x).arc.neighbor = (s.cell (s.farVertex x)).id := rfl
  rw [hneighbor, ← hid, ← hkey]
  constructor
  · intro he
    rw [hs.placed.eq_of_id (hs.placed.live_of_lookup hfar) hlive he]
  · intro he
    rw [hs.placed.eq_of_key (hs.placed.live_of_lookup hfar) hlive he]

theorem exists_entryOf_iff (hs : s.Sound .equal) (ha : s.Live a) (hb : s.lookup b = some c) :
    (∃ e ∈ (s.seen a p).map (s.entryOf a), e.arc.neighbor = b) ↔
      ∃ x ∈ s.seen a p, x.1 = s.keyOf c := by
  constructor
  · rintro ⟨e, he, hneighbor⟩
    obtain ⟨x, hx, rfl⟩ := List.mem_map.1 he
    exact ⟨x, hx, (neighbor_entryOf hs ha hb hx).1 hneighbor⟩
  · rintro ⟨x, hx, hkey⟩
    exact ⟨_, List.mem_map_of_mem hx, (neighbor_entryOf hs ha hb hx).2 hkey⟩

/-! ### Answers -/

theorem degreeOf_seen (hf : s.filterOf p = .ok f) (hanchor : s.lookup anchor = some a) :
    s.degreeOf anchor (some p) = .ok (s.seen a p).length := by
  rw [degreeOf, found, hanchor, ← matchingArcs_eq_seen hf]
  simp only [Option.elim_some, hf, bind, Except.bind, pure, Except.pure]

theorem adjacentOf_seen (hf : s.filterOf p = .ok f) (hanchor : s.lookup anchor = some a) :
    s.adjacentOf anchor p none = .ok (decide (0 < (s.seen a p).length)) := by
  rw [adjacentOf, found, hanchor, ← hasMatchingArc_eq_seen hf]
  simp only [Option.elim_some, hf, bind, Except.bind, pure, Except.pure]

section Toward

variable (hs : s.Sound .equal) (hf : s.filterOf p = .ok f) (hanchor : s.lookup anchor = some a)
  (hb : s.contains b = true)
include hs hf hanchor hb

theorem exists_adjacentOf : ∃ found, s.adjacentOf anchor p (some b) = .ok found ∧
    (found = true ↔ ∃ e ∈ (s.seen a p).map (s.entryOf a), e.arc.neighbor = b) := by
  obtain ⟨c, hc⟩ := Option.isSome_iff_exists.1 hb
  refine ⟨(s.data a).hasMatchingArc f p.direction (some [s.keyOf c]), ?_, ?_⟩
  · rw [adjacentOf, found, hanchor]
    simp only [Option.elim_some, hf, hc, bind, Except.bind, pure, Except.pure]
  · rw [exists_entryOf_iff hs (hs.placed.of_lookup hanchor).1 hc, ← arcsBetween_ne_nil_iff hf]
    simp [VertexData.hasMatchingArc]

theorem exists_valueOf : ∃ v, s.valueOf anchor p b = .ok v ∧
    (v ≠ none ↔ ∃ e ∈ (s.seen a p).map (s.entryOf a), e.arc.neighbor = b) := by
  obtain ⟨c, hc⟩ := Option.isSome_iff_exists.1 hb
  refine ⟨((s.data a).arcsBetween (s.keyOf c) f p.direction).head?.map (·.value), ?_, ?_⟩
  · rw [valueOf, found, hanchor]
    simp only [Option.elim_some, hf, hc, bind, Except.bind, pure, Except.pure]
  · rw [exists_entryOf_iff hs (hs.placed.of_lookup hanchor).1 hc, ← arcsBetween_ne_nil_iff hf]
    simp

end Toward

end Store

/-! ### Distinct neighbors -/

namespace Entry

/-- Of every vertex at a far end that has not occurred yet, one is listed, and nothing else. -/
theorem mem_neighbors_iff {known : List VertexKey} {entries : List Entry} {key : VertexKey} :
    (∃ v ∈ neighbors known entries, v.key = key) ↔
      key ∉ known ∧ ∃ e ∈ entries, e.vertex.key = key := by
  induction entries generalizing known with
  | nil => simp [neighbors]
  | cons e rest ih =>
    unfold neighbors
    split
    next hknown =>
      have hmem : e.vertex.key ∈ known := List.contains_iff_mem.1 hknown
      rw [ih, List.exists_mem_cons_iff]
      exact ⟨fun ⟨hnew, hrest⟩ => ⟨hnew, .inr hrest⟩, fun ⟨hnew, h⟩ => ⟨hnew, h.resolve_left
        fun he => hnew (he ▸ hmem)⟩⟩
    next hnew =>
      have hnot : e.vertex.key ∉ known := fun hm => hnew (List.contains_iff_mem.2 hm)
      rw [List.exists_mem_cons_iff, ih, List.exists_mem_cons_iff, List.mem_cons]
      by_cases he : e.vertex.key = key
      · simp [← he, hnot]
      · simp [he, Ne.symm he]

theorem nodup_neighbors (known : List VertexKey) (entries : List Entry) :
    ((neighbors known entries).map (·.key)).Nodup := by
  induction entries generalizing known with
  | nil => exact List.nodup_nil
  | cons e rest ih =>
    unfold neighbors
    split
    · exact ih known
    · refine List.nodup_cons.2 ⟨fun hm => ?_, ih _⟩
      obtain ⟨v, hv, hkey⟩ := List.mem_map.1 hm
      exact (mem_neighbors_iff.1 ⟨v, hv, hkey⟩).1 List.mem_cons_self

theorem exists_of_mem_neighbors {known : List VertexKey} {entries : List Entry} {v : VertexInfo}
    (hv : v ∈ neighbors known entries) : ∃ e ∈ entries, e.vertex = v := by
  induction entries generalizing known with
  | nil => exact absurd hv List.not_mem_nil
  | cons e rest ih =>
    unfold neighbors at hv
    split at hv
    · obtain ⟨e', he', hsame⟩ := ih hv
      exact ⟨e', List.mem_cons_of_mem e he', hsame⟩
    · rcases List.mem_cons.1 hv with rfl | hv
      · exact ⟨e, List.mem_cons_self, rfl⟩
      · obtain ⟨e', he', hsame⟩ := ih hv
        exact ⟨e', List.mem_cons_of_mem e he', hsame⟩

end Entry

/-- The neighbors of a result are those of its entries, each of them once. -/
theorem neighbors_of_seen (hs : s.Sound .equal) (ha : s.Live a) {result : QueryResult}
    (hentries : result.entries = (s.seen a p).map (s.entryOf a)) :
    result.neighbors.Nodup ∧
      ∀ b, b ∈ result.neighbors ↔ ∃ e ∈ result.entries, e.arc.neighbor = b := by
  have hp := hs.placed
  have hfar : ∀ e ∈ result.entries, e.arc.neighbor = e.vertex.id ∧
      ∃ c, s.Live c ∧ e.vertex = s.info c := by
    intro e he
    rw [hentries] at he
    obtain ⟨x, hx, rfl⟩ := List.mem_map.1 he
    have hlook := (hs.twoSided.farVertex ((mem_registered_iff hp).2 ha)
      (List.mem_filter.1 hx).1).1
    exact ⟨rfl, _, hp.live_of_lookup hlook, rfl⟩
  have hnodup := Entry.nodup_neighbors [] result.entries
  refine ⟨(List.Nodup.of_map _ hnodup).map_on fun v hv w hw hid => ?_,
    fun b => ⟨fun hb => ?_, ?_⟩⟩
  · obtain ⟨e, he, rfl⟩ := Entry.exists_of_mem_neighbors hv
    obtain ⟨e', he', rfl⟩ := Entry.exists_of_mem_neighbors hw
    obtain ⟨_, c, hc, hvertex⟩ := hfar e he
    obtain ⟨_, c', hc', hvertex'⟩ := hfar e' he'
    rw [hvertex, hvertex'] at hid ⊢
    exact congrArg s.info (hp.eq_of_id hc hc' hid)
  · obtain ⟨v, hv, rfl⟩ := List.mem_map.1 hb
    obtain ⟨e, he, rfl⟩ := Entry.exists_of_mem_neighbors hv
    exact ⟨e, he, (hfar e he).1⟩
  · rintro ⟨e, he, rfl⟩
    obtain ⟨v, hv, hkey⟩ := Entry.mem_neighbors_iff.2 ⟨List.not_mem_nil, e, he, rfl⟩
    obtain ⟨e', he', rfl⟩ := Entry.exists_of_mem_neighbors hv
    obtain ⟨hneighbor, c, hc, hvertex⟩ := hfar e he
    obtain ⟨_, c', hc', hvertex'⟩ := hfar e' he'
    refine List.mem_map.2 ⟨_, hv, ?_⟩
    rw [hneighbor]
    rw [hvertex, hvertex'] at hkey ⊢
    exact congrArg (fun c => (s.cell c).id) (hp.eq_of_key hc' hc hkey)

/-! ## One probe -/

/-- All arcs on one side of a vertex. -/
def Probe.side (direction : Direction) : Probe := { Probe.any with direction }

/-- What is read of the arcs around a vertex that a probe selects: by a query, by degree, by
adjacency and by value.  The neighbors and arcs of the query are listed by requests of their
own for some probes. -/
structure Session.Probed (s : Session) (who : Caller) (anchor : String) (p : Probe)
    (timeout : Option Nat) (result : QueryResult) : Prop where
  query : (s.ask who (.neighborhood (.oneLevel anchor p timeout))).1 = .ok result
  degree : (s.ask who (.degree anchor (some p))).1 = .ok result.total
  adjacent : (s.ask who (.adjacent anchor p none)).1 = .ok (decide (0 < result.total))
  adjacentTo : ∀ b, s.store.contains b = true →
    ∃ found, (s.ask who (.adjacent anchor p (some b))).1 = .ok found ∧
      (found = true ↔ ∃ e ∈ result.entries, e.arc.neighbor = b)
  value : ∀ b, s.store.contains b = true →
    ∃ v, (s.ask who (.arcValue anchor p b)).1 = .ok v ∧
      (v ≠ none ↔ ∃ e ∈ result.entries, e.arc.neighbor = b)
  distinct : result.neighbors.Nodup
  mem_neighbors : ∀ b, b ∈ result.neighbors ↔ ∃ e ∈ result.entries, e.arc.neighbor = b
  terminals : ∀ relationship, p = .along (relationship.getD Probe.wildcard) .out →
    (s.ask who (.terminals anchor relationship timeout)).1 = .ok result.neighbors
  initials : ∀ relationship, p = .along (relationship.getD Probe.wildcard) .inward →
    (s.ask who (.initials anchor relationship timeout)).1 = .ok result.neighbors
  outarcs : p = .side .out →
    (s.ask who (.outarcs anchor timeout)).1 = .ok result.arcs
  inarcs : p = .side .inward →
    (s.ask who (.inarcs anchor timeout)).1 = .ok result.arcs

namespace Session

variable {s : Session}

/-- The answer of a request that is read off the result of a query. -/
theorem ask_ofNeighborhood {α : Type} (s : Session) (who : Caller) {r : Request α} {q : Query}
    {f : QueryResult → α} (hr : r.action who = do return f (← neighborhood who q))
    {result : QueryResult} (hq : (s.ask who (.neighborhood q)).1 = .ok result) :
    (s.ask who r).1 = .ok (f result) := by
  have hask : (s.ask who r).1 = ((r.action who).run s.store).1 := rfl
  have hrun : ((neighborhood who q).run s.store).1 = .ok result := hq
  rw [hask, hr, run_bind]
  cases hn : (neighborhood who q).run s.store with
  | mk outcome store =>
    rw [hn] at hrun
    cases hrun
    rfl

/-- All ways to look around a vertex through a probe show the arcs that are seen. -/
theorem probed_of_idle (hs : s.Sound .equal) (hidle : s.IdleFor who)
    (hplan : (Query.oneLevel anchor p timeout).plan s.store = .ok plan)
    (hanchor : s.store.lookup anchor = some a) :
    ∃ result, s.Probed who anchor p timeout result ∧
      result.entries = (s.store.seen a p).map (s.store.entryOf a) := by
  obtain ⟨_, _, f, hf, _⟩ := planned_oneLevel hplan
  obtain ⟨hothers, hreaders⟩ := hidle.guards hs
  have hopen := hidle.openTo hs
  have hp := hs.store.placed
  obtain ⟨result, hquery, hentries, htotal⟩ := told_of_answers hs
    (.neighborhood (.oneLevel anchor p timeout)) (answers_oneLevel hs.store.twoSided hplan hanchor
      (available_of_idle hplan hothers hreaders a))
  obtain ⟨hdistinct, hmem⟩ := neighbors_of_seen hs.store (hp.of_lookup hanchor).1 hentries
  refine ⟨result,
    { query := hquery
      degree := ?_
      adjacent := ?_
      adjacentTo := fun b hb => ?_
      value := fun b hb => ?_
      distinct := hdistinct
      mem_neighbors := hmem
      terminals := fun relationship he => ask_ofNeighborhood s who rfl (he ▸ hquery)
      initials := fun relationship he => ask_ofNeighborhood s who rfl (he ▸ hquery)
      outarcs := ?_
      inarcs := ?_ }, hentries⟩
  · rw [ask_of_answers hs (.degree anchor (some p)) (answers_degreeOf hopen hp anchor (some p)),
      degreeOf_seen hf hanchor, htotal]
  · rw [ask_of_answers hs (.adjacent anchor p none) (answers_adjacentOf hopen hp anchor p none),
      adjacentOf_seen hf hanchor, htotal]
  · rw [ask_of_answers hs (.adjacent anchor p (some b))
      (answers_adjacentOf hopen hp anchor p (some b)), hentries]
    exact exists_adjacentOf hs.store hf hanchor hb
  · rw [ask_of_answers hs (.arcValue anchor p b) (answers_valueOf hopen hp anchor p b), hentries]
    exact exists_valueOf hs.store hf hanchor hb
  · rintro rfl
    exact ask_ofNeighborhood s who rfl hquery
  · rintro rfl
    exact ask_ofNeighborhood s who rfl hquery

end Session

end Arcbase
