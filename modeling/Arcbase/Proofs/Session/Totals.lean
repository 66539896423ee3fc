import Arcbase.Proofs.Session.Probing
import Arcbase.Proofs.Session.Sorting
import Arcbase.Proofs.Session.Vetoing
import Mathlib.Data.Finset.Card
set_option autoImplicit false

/-!
# Totals are those of the entries

An aggregation adds up what a walk collected, in the order of discovery and without a window; a
query shows it sorted and cut.  Both take the same walk, and the order matters neither to sums
of naturals nor to the number of distinct far ends (`Aggregation.ofPool_eq`).  Far ends differ
in their identifiers as they do in their keys, for all that is collected is a vertex of the
graph (`Records.vertex`).
-/

namespace Arcbase

open Guard Store Arcbase.Action

/-! ## Sums over entries -/

theorem foldl_add_eq_sum {α : Type} (f : α → Nat) (xs : List α) :
    xs.foldl (fun sum x => sum + f x) 0 = (xs.map f).sum := by
  rw [List.sum_eq_foldl, List.foldl_map]

namespace Entry

/-- There is one distinct far end for every key. -/
theorem length_neighbors (entries : List Entry) :
    (neighbors [] entries).length = (entries.map (·.vertex.key)).toFinset.card := by
  have hkeys : ((neighbors [] entries).map (·.key)).toFinset =
      (entries.map (·.vertex.key)).toFinset := by
    ext key
    have hmem : (∃ v ∈ neighbors [] entries, v.key = key) ↔
        key ∉ [] ∧ ∃ e ∈ entries, e.vertex.key = key := mem_neighbors_iff
    simpa using hmem
  rw [← hkeys, List.toFinset_card_of_nodup (nodup_neighbors [] entries), List.length_map]

/-- The vertices of entries bear the keys of their identifiers. -/
def Keyed (entries : List Entry) : Prop := ∀ e ∈ entries, e.vertex.key = .of e.vertex.id

/-- Of every vertex the identifier is listed once. -/
theorem Keyed.nodup_neighbors {entries : List Entry} (h : Keyed entries) :
    ((neighbors [] entries).map (·.id)).Nodup := by
  refine List.Nodup.of_map VertexKey.of ?_
  rw [List.map_map]
  refine (List.map_congr_left fun v hv => ?_) ▸ Entry.nodup_neighbors [] entries
  obtain ⟨e, he, rfl⟩ := exists_of_mem_neighbors hv
  exact h e he

end Entry

/-- The totals of an aggregation are those of the entries of a result. -/
structure Aggregation.Totals (a : Aggregation) (r : QueryResult) : Prop where
  arcs : a.arcs = r.total
  listed : a.arcs = r.entries.length
  neighbors : a.neighbors = r.neighbors.toFinset.card
  distinct : r.neighbors.Nodup
  degree : a.degree = (r.entries.map (·.vertex.degree)).sum
  indegree : a.indegree = (r.entries.map (·.vertex.indegree)).sum
  outdegree : a.outdegree = (r.entries.map (·.vertex.outdegree)).sum
  split : a.degree = a.indegree + a.outdegree

/-- The totals of a pool are those of its entries in any order. -/
theorem Aggregation.totals_ofPool {pool : List Entry} {r : QueryResult}
    (hperm : r.entries.Perm pool) (htotal : r.total = pool.length) (hkeyed : Entry.Keyed pool) :
    (ofPool pool).Totals r := by
  have hsum : ∀ f : Entry → Nat, pool.foldl (fun sum e => sum + f e) 0 = (r.entries.map f).sum :=
    fun f => (foldl_add_eq_sum f pool).trans ((hperm.map f).sum_eq).symm
  have hkeyed' : Entry.Keyed r.entries := fun e he => hkeyed e (hperm.subset he)
  refine ⟨htotal.symm, hperm.length_eq.symm, ?_, hkeyed'.nodup_neighbors, hsum _, hsum _, hsum _,
    ?_⟩
  · have hids : r.neighbors.toFinset.card = (Entry.neighbors [] r.entries).length :=
      (List.toFinset_card_of_nodup hkeyed'.nodup_neighbors).trans (List.length_map _)
    rw [hids, Entry.length_neighbors, List.toFinset_eq_of_perm _ _ (hperm.map (·.vertex.key))]
    exact Entry.length_neighbors pool
  · have hdegree : (ofPool pool).degree = _ := hsum (·.vertex.degree)
    have hindegree : (ofPool pool).indegree = _ := hsum (·.vertex.indegree)
    have houtdegree : (ofPool pool).outdegree = _ := hsum (·.vertex.outdegree)
    rw [hdegree, hindegree, houtdegree, ← List.sum_map_add]
    rfl

/-! ## What is collected -/

namespace Store

variable {s : Store} {rank : Option Expression} {levels : List PlannedLevel} {anchor : CellId}
  {depth : Nat} {visits : Visits}

/-- At the end of a chain is a registered vertex, as it is. -/
theorem Chain.vertex {chain : List (Visit × Visits)} {e : Entry}
    (h : s.Chain rank levels anchor depth visits chain e) :
    ∃ key c, s.lookupKey key = some c ∧ e.vertex = s.info c := by
  induction h with
  | last passed _ own =>
    obtain ⟨value, rfl⟩ := passed.collected.entry _ own
    exact ⟨_, _, passed.found, rfl⟩
  | link _ _ _ ih => exact ih

/-- What a walk collects are vertices of the graph, which bear the keys of their identifiers. -/
theorem answers_walk_keyed {G : List Guard} (hs : s.Placed) (p : Plan) (who : Caller) :
    Answers s G (p.walk who) (OnSuccess fun w => Entry.Keyed w.pool) := by
  unfold Plan.walk
  have hfind : Answers s G (find p.anchor) fun _ => True := by
    refine answers_bind (M := fun _ => True) (answers_read fun _ => trivial) (fun _ _ => trivial)
      fun found _ => ?_
    cases found with
    | none => exact answers_ofExcept trivial
    | some c => exact answers_pure trivial
  refine answers_bind hfind (fun _ _ => trivial) fun a _ => ?_
  refine answers_holding (fun _ _ => trivial) fun g _ _ => ?_
  refine answers_bind (answers_trace (p.root :: p.nested) 1 a {}) (fun _ _ => trivial)
    fun y hy => answers_pure ?_
  obtain ⟨found, _, visits, hrecords, _, hcomes⟩ := hy
  intro e he
  rw [hcomes.pool, List.nil_append] at he
  obtain ⟨chain, hchain⟩ := hrecords.chain he
  obtain ⟨key, c, hfound, hvertex⟩ := hchain.vertex
  rw [hvertex]
  exact hs.keyed c (hs.live_of_lookup hfound).1

end Store

/-! ## Requests -/

namespace Action

variable {q : Query} {s : Store} {p : Plan}

theorem run_plan (q : Query) (s : Store) : (plan q).run s = (q.plan s, s) := by
  rw [plan, run_bind]
  rfl

/-- A query that cannot be planned is not carried out, in either way. -/
theorem run_of_plan_error {e : Error} (h : q.plan s = .error e) (who : Caller) :
    ((neighborhood who q).run s).1 = .error e ∧ ((aggregate who q).run s).1 = .error e := by
  rw [neighborhood, aggregate, run_bind, run_bind, run_plan, h]
  exact ⟨rfl, rfl⟩

/-- Both ways to carry a planned query out take one walk. -/
theorem run_of_plan_ok (h : q.plan s = .ok p) (who : Caller) :
    ((neighborhood who q).run s).1 = ((p.walk who).run s).1.map p.resultOf ∧
      ((aggregate who q).run s).1 = ((p.walk who).run s).1.map fun w => .ofPool w.pool := by
  rw [neighborhood, aggregate, run_bind, run_bind, run_plan, h]
  refine ⟨congrArg Prod.fst (Plan.run_execute p who s), ?_⟩
  dsimp only
  rw [Plan.aggregate, run_bind]
  cases (p.walk who).run s with
  | mk r s' => cases r <;> rfl

end Action

/-- What an aggregation, a query and the same query without its window answer: all of them
fail with one error, or the aggregation has the totals of the whole. -/
inductive Tallies (q : Query) :
    Except Error Aggregation → Except Error QueryResult → Except Error QueryResult → Prop where
  | failed (e : Error) : Tallies q (.error e) (.error e) (.error e)
  | told {a : Aggregation} {shown whole : QueryResult} (totals : a.Totals whole)
      (total : shown.total = whole.total)
      (valueSum : q.sortBy = .discovery → q.rank = none →
        a.valueSum = whole.entries.foldl (fun sum e => sum.add e.arc.value.toNumber) .zero) :
    Tallies q (.ok a) (.ok shown) (.ok whole)

variable {ok : Operation → Prop} {s : Session}

/-- An aggregation fails as its query does, and has the totals of the query's result without a
window. -/
theorem aggregate_agrees (h : Reach ok s) (who : Caller) (q : Query) :
    Tallies q (s.ask who (.aggregate q)).1 (s.ask who (.neighborhood q)).1
      (s.ask who (.neighborhood (q.windowed 0 none))).1 := by
  have hsound := h.sound
  change Tallies q ((Action.aggregate who q).run s.store).1 ((neighborhood who q).run s.store).1
    ((neighborhood who (q.windowed 0 none)).run s.store).1
  have hwhole := Query.plan_windowed q 0 none s.store
  cases hplan : q.plan s.store with
  | error e =>
    rw [hplan] at hwhole
    rw [(run_of_plan_error hplan who).1, (run_of_plan_error hplan who).2,
      (run_of_plan_error hwhole who).1]
    exact .failed e
  | ok p =>
    rw [hplan] at hwhole
    rw [(run_of_plan_ok hplan who).1, (run_of_plan_ok hplan who).2, (run_of_plan_ok hwhole who).1,
      Plan.walk_windowed]
    obtain ⟨r, t, hwalk, _, _, hkeyed⟩ :=
      answers_walk_keyed hsound.store.placed p who s.store.locks (.refl _) hsound.guarded.accounts
    have hrun : ((p.walk who).run s.store).1 = r := congrArg Prod.fst hwalk
    rw [hrun]
    cases r with
    | error e => exact .failed e
    | ok w =>
      refine .told (Aggregation.totals_ofPool ?_ rfl hkeyed) rfl fun hkey hrank => ?_
      · rw [Plan.entries_resultOf_whole]
        exact (Plan.stableSort_sorted p w.pool).perm
      · rw [Plan.entries_resultOf_whole, Plan.sorted_of_unranked hplan hkey hrank]
        rfl

/-- Two vertices with an arc either way. -/
def toAndFro : Session :=
  (link "b" "a").after ⟨⟨"m"⟩, 5⟩ ((link "a" "b").after ⟨⟨"m"⟩, 5⟩ (.new {} .new))

/-- Two arcs, of which the window shows one, and a single neighbor. -/
theorem aggregate_agrees_toAndFro :
    ((toAndFro.ask ⟨⟨"u"⟩, 6⟩ (.neighborhood { anchor := "a", hits := some 1 })).1.map
      fun r => (r.entries.length, r.total)).toOption = some (1, 2) ∧
    ((toAndFro.ask ⟨⟨"u"⟩, 6⟩ (.neighborhood { anchor := "a" })).1.map (·.neighbors)).toOption =
      some ["b"] ∧
    Tallies { anchor := "a", hits := some 1 }
      (toAndFro.ask ⟨⟨"u"⟩, 6⟩ (.aggregate { anchor := "a", hits := some 1 })).1
      (toAndFro.ask ⟨⟨"u"⟩, 6⟩ (.neighborhood { anchor := "a", hits := some 1 })).1
      (toAndFro.ask ⟨⟨"u"⟩, 6⟩ (.neighborhood { anchor := "a" })).1 := by
  have hreach : Reach Operation.Live toAndFro :=
    ((Reach.start {} .new).step ⟨⟨"m"⟩, 5⟩ (link "a" "b") (by rfl)).step ⟨⟨"m"⟩, 5⟩ (link "b" "a")
      (by rfl)
  refine ⟨?_, ?_, aggregate_agrees hreach ⟨⟨"u"⟩, 6⟩ { anchor := "a", hits := some 1 }⟩
  · set_option maxRecDepth 10000 in
    cbv
  · set_option maxRecDepth 10000 in
    cbv

end Arcbase
