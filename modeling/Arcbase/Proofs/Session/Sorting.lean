import Arcbase.Proofs.Session.Querying
set_option autoImplicit false

/-!
# Results are windows of one stable sort

What a walk collects is put in order once, by a total preorder on entries, and ties stay as
they were discovered, in either direction (`StableSort`).  A result is a window of that order,
and its total is that of the whole.  A walk knows nothing of the window (`walk_windowed`), so
that pages of one size, laid one after the other, are the whole again.
-/

namespace Arcbase

open Arcbase.Action

/-! ## Stable sorts -/

section StableSort

variable {α : Type} {cmp : α → α → Ordering} {pool sorted sorted' : List α}

/-- The members of a pool in the order of a comparison, those that compare equal in the order
of the pool: every member comes with its place there. -/
def StableSort (cmp : α → α → Ordering) (pool sorted : List α) : Prop :=
  ∃ placed : List (α × Nat), placed.Perm pool.zipIdx ∧ placed.map Prod.fst = sorted ∧
    placed.Pairwise fun x y => cmp x.1 y.1 = .lt ∨ cmp x.1 y.1 = .eq ∧ x.2 < y.2

theorem StableSort.perm (h : StableSort cmp pool sorted) : sorted.Perm pool := by
  obtain ⟨placed, hperm, rfl, -⟩ := h
  have hmap := hperm.map Prod.fst
  rwa [List.zipIdx_map_fst] at hmap

/-- A pool has one stable sort: no two members stand one before the other both ways. -/
theorem StableSort.unique [Std.OrientedCmp cmp] (h : StableSort cmp pool sorted)
    (h' : StableSort cmp pool sorted') : sorted = sorted' := by
  obtain ⟨placed, hperm, rfl, hsorted⟩ := h
  obtain ⟨placed', hperm', rfl, hsorted'⟩ := h'
  refine congrArg _ (List.Perm.eq_of_pairwise (fun x y _ _ hxy hyx => ?_) hsorted hsorted'
    (hperm.trans hperm'.symm))
  have hswap : cmp y.1 x.1 = (cmp x.1 y.1).swap := Std.OrientedCmp.eq_swap
  rcases hxy with hxy | ⟨hxy, hlt⟩
  · simp [hswap, hxy] at hyx
  · simp only [hswap, hxy, Ordering.swap, reduceCtorEq, true_and, false_or] at hyx
    omega

theorem stableSort_mergeSort [Std.TransCmp cmp] (pool : List α) :
    StableSort cmp pool (pool.mergeSort fun a b => (cmp a b).isLE) := by
  let le : α → α → Bool := fun a b => (cmp a b).isLE
  have htrans : ∀ a b c, le a b → le b c → le a c := fun _ _ _ => Std.TransCmp.isLE_trans
  have htotal : ∀ a b, le a b || le b a := by
    intro a b
    have hswap : cmp b a = (cmp a b).swap := Std.OrientedCmp.eq_swap
    simp only [le, hswap]
    cases cmp a b <;> rfl
  refine ⟨pool.zipIdx.mergeSort (List.zipIdxLE le), List.mergeSort_perm _ _,
    List.mergeSort_zipIdx, ?_⟩
  have hsorted := List.pairwise_mergeSort (List.zipIdxLE_trans htrans)
    (List.zipIdxLE_total htotal) pool.zipIdx
  have hplaces : (pool.zipIdx.mergeSort (List.zipIdxLE le)).Pairwise fun x y => x.2 ≠ y.2 := by
    refine List.pairwise_map.1 (((List.mergeSort_perm _ _).map Prod.snd).nodup_iff.2 ?_)
    rw [List.zipIdx_map_snd]
    exact List.nodup_range'
  refine (hsorted.and hplaces).imp fun {x y} ⟨hle, hne⟩ => ?_
  have hswap : cmp y.1 x.1 = (cmp x.1 y.1).swap := Std.OrientedCmp.eq_swap
  cases hcmp : cmp x.1 y.1 with
  | lt => exact .inl rfl
  | eq =>
    simp only [List.zipIdxLE, le, hswap, hcmp] at hle
    exact .inr ⟨rfl, Nat.lt_of_le_of_ne (by simpa using hle) hne⟩
  | gt => simp [List.zipIdxLE, le, hcmp] at hle

/-- Where all members compare equal they stay as they are. -/
theorem stableSort_self (h : ∀ a b, cmp a b = .eq) (pool : List α) : StableSort cmp pool pool := by
  refine ⟨pool.zipIdx, .refl _, List.zipIdx_map_fst 0 pool, ?_⟩
  have hplaces : (pool.zipIdx.map Prod.snd).Pairwise (· < ·) := by
    rw [List.zipIdx_map_snd]
    exact List.pairwise_lt_range'
  exact (List.pairwise_map.1 hplaces).imp fun hlt => .inr ⟨h _ _, hlt⟩

end StableSort

/-! ## Entries -/

/-- Every key puts entries in a total preorder. -/
instance Entry.transCmp_order (key : SortKey) : Std.TransCmp (Entry.order key) := by
  cases key
  case discovery =>
    exact { eq_swap := rfl, isLE_trans := fun _ _ => rfl }
  all_goals exact inferInstanceAs (Std.TransCmp (compareOn _))

namespace Plan

/-- How a plan compares entries: by its key, the other way round if it is descending. -/
def order (p : Plan) (a b : Entry) : Ordering :=
  match p.direction with
  | .ascending => Entry.order p.sortBy a b
  | .descending => (Entry.order p.sortBy a b).swap

instance transCmp_order (p : Plan) : Std.TransCmp p.order := by
  unfold order
  cases p.direction with
  | ascending => exact Entry.transCmp_order p.sortBy
  | descending =>
    have hswap : (fun a b => (Entry.order p.sortBy a b).swap) =
        fun a b => Entry.order p.sortBy b a :=
      funext₂ fun _ _ => Std.OrientedCmp.eq_swap.symm
    rw [hswap]
    exact { eq_swap := Std.OrientedCmp.eq_swap
            isLE_trans := fun hab hbc => Std.TransCmp.isLE_trans hbc hab }

theorem before_eq (p : Plan) :
    Entry.before p.sortBy p.direction = fun a b => (p.order a b).isLE := by
  funext a b
  unfold order Entry.before
  cases p.direction with
  | ascending => rfl
  | descending => exact congrArg Ordering.isLE Std.OrientedCmp.eq_swap

/-- Entries as a plan sorts them. -/
def sorted (p : Plan) (pool : List Entry) : List Entry :=
  pool.mergeSort (Entry.before p.sortBy p.direction)

theorem stableSort_sorted (p : Plan) (pool : List Entry) :
    StableSort p.order pool (p.sorted pool) := by
  rw [sorted, before_eq]
  exact stableSort_mergeSort pool

/-! ## Windows -/

/-- A plan with another window. -/
def windowed (p : Plan) (offset : Nat) (hits : Option Nat) : Plan := { p with offset, hits }

theorem walkLevels_windowed (who : Caller) (p : Plan) (offset : Nat) (hits : Option Nat)
    (levels : List PlannedLevel) (depth : Nat) :
    walkLevels who (p.windowed offset hits) levels depth = walkLevels who p levels depth := by
  induction levels generalizing depth with
  | nil => rfl
  | cons level below ih =>
    unfold walkLevels
    rw [ih]
    rfl

theorem walk_windowed (p : Plan) (offset : Nat) (hits : Option Nat) (who : Caller) :
    (p.windowed offset hits).walk who = p.walk who := by
  unfold walk
  rw [walkLevels_windowed]
  rfl

variable {p : Plan} {who : Caller} {s s' : Store} {w : Walk}

/-- The outcome of a plan whose walk comes to its end. -/
def resultOf (p : Plan) (w : Walk) : QueryResult :=
  { entries := p.window (p.sorted w.pool)
    total := w.pool.length
    elapsed := w.elapsed
    visitedArcs := w.visitedArcs
    visitedVertices := w.visitedVertices }

theorem run_execute (p : Plan) (who : Caller) (s : Store) :
    (p.execute who).run s =
      (((p.walk who).run s).1.map p.resultOf, ((p.walk who).run s).2) := by
  rw [execute, run_bind]
  cases (p.walk who).run s with
  | mk r s' => cases r <;> rfl

theorem window_eq (p : Plan) (entries : List Entry) :
    p.window entries = (entries.drop p.offset).take (p.hits.getD entries.length) := by
  unfold window
  cases p.hits with
  | some n => rfl
  | none =>
    refine (List.take_of_length_le ?_).symm
    rw [List.length_drop]
    exact Nat.sub_le _ _

/-- The first pages of a list hold its first members. -/
theorem flatMap_pages {α : Type} (entries : List α) (size n : Nat) :
    ((List.range n).flatMap fun k => (entries.drop (k * size)).take size) =
      entries.take (n * size) := by
  induction n with
  | zero => simp
  | succ n ih =>
    rw [List.range_succ, List.flatMap_append, ih, List.flatMap_singleton, Nat.succ_mul,
      List.take_add]

end Plan

/-! ## Queries -/

namespace Query

/-- A query with another window. -/
def windowed (q : Query) (offset : Nat) (hits : Option Nat) : Query := { q with offset, hits }

variable {q : Query} {p : Plan} {s : Store}

theorem exists_of_bind_eq_ok {ε α β : Type} {x : Except ε α} {f : α → Except ε β} {b : β}
    (h : (x >>= f) = .ok b) : ∃ a, x = .ok a ∧ f a = .ok b := by
  cases x with
  | error e => cases h
  | ok a => exact ⟨a, rfl, h⟩

theorem plan_of_fault {fault : VertexFault} (hfault : s.identifierFault? q.anchor = some fault) :
    q.plan s = .error (.query (.anchor fault)) := by
  unfold plan
  rw [hfault]
  rfl

theorem plan_of_deep (hfault : s.identifierFault? q.anchor = none)
    (hdeep : s.locks.limit ≤ q.depth) :
    q.plan s = .error (.query (.tooDeep q.depth (s.locks.limit - 1))) := by
  unfold plan
  rw [hfault]
  dsimp only
  rw [if_pos hdeep]
  rfl

/-- A query whose anchor can be one and whose levels are few enough is looked up. -/
theorem plan_of_shallow (hfault : s.identifierFault? q.anchor = none)
    (hdeep : ¬ s.locks.limit ≤ q.depth) :
    q.plan s = (do
      let order ← q.order.mapError .query
      let timeLimit ← q.timeLimit.mapError .query
      let root ← s.planLevel q.root false
      let nested ← s.planNested q.nested
      return { anchor := q.anchor, root, nested, rank := q.rank, sortBy := order.1,
               direction := order.2, offset := q.offset, hits := q.hits, timeout := q.timeout,
               timeLimit }) := by
  unfold plan
  rw [hfault]
  dsimp only
  rw [if_neg hdeep]

/-- The window of a query is handed on to its plan, and is of no other use there. -/
theorem plan_windowed (q : Query) (offset : Nat) (hits : Option Nat) (s : Store) :
    (q.windowed offset hits).plan s = (q.plan s).map (·.windowed offset hits) := by
  cases hfault : s.identifierFault? q.anchor with
  | some fault =>
    rw [plan_of_fault hfault, plan_of_fault (q := q.windowed offset hits) hfault]
    rfl
  | none =>
    by_cases hdeep : s.locks.limit ≤ q.depth
    · rw [plan_of_deep hfault hdeep, plan_of_deep (q := q.windowed offset hits) hfault hdeep]
      rfl
    · have hmap : ∀ x : Except Error Plan,
          x.map (·.windowed offset hits) = (·.windowed offset hits) <$> x := fun _ => rfl
      rw [plan_of_shallow hfault hdeep, plan_of_shallow (q := q.windowed offset hits) hfault hdeep,
        hmap]
      simp only [map_bind, map_pure]
      rfl

/-- A plan sorts as its query says. -/
theorem order_of_plan (h : q.plan s = .ok p) : q.order = .ok (p.sortBy, p.direction) := by
  cases hfault : s.identifierFault? q.anchor with
  | some fault => 
    rw [plan_of_fault hfault] at h
    cases h
  | none =>
    by_cases hdeep : s.locks.limit ≤ q.depth
    · rw [plan_of_deep hfault hdeep] at h
      cases h
    · rw [plan_of_shallow hfault hdeep] at h
      obtain ⟨order, horder, h⟩ := exists_of_bind_eq_ok h
      obtain ⟨timeLimit, -, h⟩ := exists_of_bind_eq_ok h
      obtain ⟨root, -, h⟩ := exists_of_bind_eq_ok h
      obtain ⟨nested, -, h⟩ := exists_of_bind_eq_ok h
      cases h
      cases hq : q.order with
      | error fault =>
        rw [hq] at horder
        cases horder
      | ok order' =>
        rw [hq] at horder
        cases horder
        rfl

/-- Without a sort key a rank puts the greatest first, and nothing else sorts. -/
theorem order_of_unsorted (h : q.plan s = .ok p) (hkey : q.sortBy = .discovery) :
    (q.rank.isSome → p.order = fun a b => (Entry.order .rank a b).swap) ∧
      (q.rank = none → p.order = fun _ _ => .eq) := by
  have horder := order_of_plan h
  unfold order at horder
  rw [hkey] at horder
  cases hrank : q.rank with
  | none =>
    rw [hrank] at horder
    obtain ⟨hby, hdirection⟩ := Prod.mk.inj (Except.ok.inj horder)
    refine ⟨fun hsome => (nomatch hsome), fun _ => ?_⟩
    unfold Plan.order
    rw [← hby, ← hdirection]
    rfl
  | some e =>
    rw [hrank] at horder
    obtain ⟨hby, hdirection⟩ := Prod.mk.inj (Except.ok.inj horder)
    refine ⟨fun _ => ?_, fun hnone => (nomatch hnone)⟩
    unfold Plan.order
    rw [← hby, ← hdirection]
    rfl

end Query

/-! ## Results -/

namespace Plan

variable {p : Plan} {who : Caller} {s s' : Store} {w : Walk}

/-- What a plan shows of the pool that its walk collected, if `sorted` is all of it. -/
structure Shows (p : Plan) (who : Caller) (s s' : Store) (pool sorted : List Entry) : Prop where
  /-- `sorted` is the stable sort of the pool, and there is no other one -/
  sorts : ∀ other, StableSort p.order pool other ↔ other = sorted
  /-- the window, at or past the end too, and the total, which is that of the pool -/
  shows : ∃ r, (p.execute who).run s = (.ok r, s') ∧
    r.entries = (sorted.drop p.offset).take (p.hits.getD sorted.length) ∧ r.total = pool.length
  /-- without a window -/
  whole : ∃ r, ((p.windowed 0 none).execute who).run s = (.ok r, s') ∧ r.entries = sorted
  /-- pages of one size, enough of them, laid one after the other -/
  pages : ∀ size, ∃ page : Nat → QueryResult,
    (∀ k, ((p.windowed (k * size) (some size)).execute who).run s = (.ok (page k), s')) ∧
    ∀ n, pool.length ≤ n * size → ((List.range n).flatMap fun k => (page k).entries) = sorted
  /-- a rank without a sort key -/
  ranked : ∀ q : Query, q.plan s = .ok p → q.sortBy = .discovery → q.rank.isSome →
    p.order = fun a b => (Entry.order .rank a b).swap
  /-- neither a rank nor a sort key -/
  unranked : ∀ q : Query, q.plan s = .ok p → q.sortBy = .discovery → q.rank = none →
    sorted = pool

theorem sorted_of_unranked {q : Query} (hplan : q.plan s = .ok p) (hkey : q.sortBy = .discovery)
    (hrank : q.rank = none) (pool : List Entry) : p.sorted pool = pool := by
  have hequal := (Query.order_of_unsorted hplan hkey).2 hrank
  exact (stableSort_sorted p pool).unique (stableSort_self (fun a b => congrFun₂ hequal a b) pool)

theorem run_windowed (hwalk : (p.walk who).run s = (.ok w, s')) (offset : Nat)
    (hits : Option Nat) : ((p.windowed offset hits).execute who).run s =
      (.ok ((p.windowed offset hits).resultOf w), s') := by
  rw [run_execute, walk_windowed, hwalk]
  rfl

theorem entries_resultOf_windowed (p : Plan) (w : Walk) (offset : Nat) (hits : Option Nat) :
    ((p.windowed offset hits).resultOf w).entries =
      ((p.sorted w.pool).drop offset).take (hits.getD (p.sorted w.pool).length) :=
  window_eq _ _

theorem entries_resultOf_whole (p : Plan) (w : Walk) :
    ((p.windowed 0 none).resultOf w).entries = p.sorted w.pool := by
  rw [entries_resultOf_windowed, List.drop_zero, Option.getD_none, List.take_length]

/-- What a plan shows is a window of the one stable sort of what its walk collects, by the
total preorder that it plans. -/
theorem windows_of_stable_sort (hwalk : (p.walk who).run s = (.ok w, s')) :
    (∀ key, Std.TransCmp (Entry.order key)) ∧
      ∃ sorted, p.Shows who s s' w.pool sorted := by
  have hlength : (p.sorted w.pool).length = w.pool.length :=
    (stableSort_sorted p w.pool).perm.length_eq
  refine ⟨Entry.transCmp_order, p.sorted w.pool, ?_, ?_, ?_, ?_, ?_, ?_⟩
  · intro other
    refine ⟨fun h => h.unique (stableSort_sorted p w.pool), ?_⟩
    rintro rfl
    exact stableSort_sorted p w.pool
  · exact ⟨_, run_windowed hwalk p.offset p.hits, entries_resultOf_windowed p w _ _, rfl⟩
  · exact ⟨_, run_windowed hwalk 0 none, entries_resultOf_whole p w⟩
  · intro size
    refine ⟨_, fun k => run_windowed hwalk (k * size) (some size), fun n hn => ?_⟩
    simp only [entries_resultOf_windowed, Option.getD_some]
    rw [flatMap_pages, List.take_of_length_le (hlength.trans_le hn)]
  · intro q hplan hkey hrank
    exact (Query.order_of_unsorted hplan hkey).1 hrank
  · intro q hplan hkey hrank
    exact sorted_of_unranked hplan hkey hrank w.pool

/-- The arcs around a vertex, those to the last identifiers first. -/
def lastFirst : Query :=
  { anchor := "a", root := { arc := .along "r" .out }, sortBy := .identifier
    direction := some .descending }

/-- The arc that was discovered last comes first. -/
theorem windows_of_stable_sort_branching : ∃ p w s' sorted,
    lastFirst.plan branching.store = .ok p ∧
    (p.walk ⟨⟨"u"⟩, 6⟩).run branching.store = (.ok w, s') ∧
    w.pool.map (·.vertex.id) = ["b", "e"] ∧ sorted.map (·.vertex.id) = ["e", "b"] ∧
    p.Shows ⟨⟨"u"⟩, 6⟩ branching.store s' w.pool sorted := by
  have hview : (lastFirst.plan branching.store >>= fun p =>
      ((p.walk ⟨⟨"u"⟩, 6⟩).run branching.store).1.map fun w =>
        (w.pool.map (·.vertex.id), (p.sorted w.pool).map (·.vertex.id))).toOption =
      some (["b", "e"], ["e", "b"]) := by
    set_option maxRecDepth 10000 in
    cbv
  cases hplan : lastFirst.plan branching.store with
  | error e =>
    rw [hplan] at hview
    cases hview
  | ok p =>
    cases hrun : (p.walk ⟨⟨"u"⟩, 6⟩).run branching.store with
    | mk r s' =>
      simp only [hplan, bind, Except.bind, hrun] at hview
      cases r with
      | error e => cases hview
      | ok w =>
        simp only [Except.map, Except.toOption, Option.some.injEq, Prod.mk.injEq] at hview
        obtain ⟨sorted, hshows⟩ := (windows_of_stable_sort hrun).2
        obtain rfl := (hshows.sorts _).1 (stableSort_sorted p w.pool)
        exact ⟨p, w, s', _, rfl, hrun, hview.1, hview.2, hshows⟩

end Plan

end Arcbase
