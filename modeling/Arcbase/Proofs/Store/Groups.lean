import Arcbase.Proofs.Store.Severing
set_option autoImplicit false

/-!
# The groups of a removal

A removal sees the arcs around its anchor that its filter accepts, and deals with
them in groups, one for each neighbor.  Every arc that is seen is in the group of its
neighbor (`mem_flatMap_places_iff`), and every neighbor is in the graph.
-/

namespace Arcbase.Store

variable {agree : Agreement} {s s' : Store}

theorem nodup_eraseDups {α : Type} [BEq α] [LawfulBEq α] (l : List α) : l.eraseDups.Nodup := by
  induction hn : l.length using Nat.strongRecOn generalizing l with
  | ind n ih =>
    cases l with
    | nil => exact List.nodup_nil
    | cons a rest =>
      rw [List.eraseDups_cons, List.nodup_cons]
      constructor
      · rw [List.mem_eraseDups]
        simp
      · refine ih _ ?_ _ rfl
        rw [← hn, List.length_cons]
        exact Nat.lt_succ_of_le (List.length_filter_le ..)

/-- The arcs around an anchor that a removal is after. -/
def aimedAt (s : Store) (anchor : CellId) (filter : ArcFilter) (direction : Direction)
    (neighbor : Option VertexKey) : List (VertexKey × Direction × StoredArc) :=
  ((s.data anchor).matchingArcs filter direction).filter fun (n, _, _) => neighbor.all (· == n)

section Groups

variable {anchor : CellId} {filter : ArcFilter} {direction : Direction}
  {neighbor : Option VertexKey}

/-- What is seen along one side of a vertex. -/
theorem mem_side_iff {n : VertexKey} {d : Direction} {a : StoredArc} (b : Bool) (i : ArcIndex)
    (side : Direction) :
    (n, d, a) ∈ (if b then i.matching filter else []).map (fun (n, a) => (n, side, a)) ↔
      d = side ∧ b = true ∧ a ∈ i.arcsTo n ∧ filter.test a = true := by
  rw [← ArcIndex.mem_entries_iff, List.mem_map]
  cases b
  · simp
  · simp only [if_true, ArcIndex.matching, List.mem_filter, Prod.exists, Prod.mk.injEq]
    constructor
    · rintro ⟨n', a', h, rfl, rfl, rfl⟩
      exact ⟨rfl, trivial, h⟩
    · rintro ⟨rfl, -, h⟩
      exact ⟨n, a, h, rfl, rfl, rfl⟩

theorem mem_aimedAt_iff {n : VertexKey} {d : Direction} {a : StoredArc} :
    (n, d, a) ∈ s.aimedAt anchor filter direction neighbor ↔
      ((d = .out ∧ direction.includesOut = true ∧ a ∈ (s.data anchor).out.arcsTo n) ∨
        (d = .inward ∧ direction.includesIn = true ∧ a ∈ (s.data anchor).inbound.arcsTo n)) ∧
      filter.test a = true ∧ neighbor.all (· == n) = true := by
  rw [aimedAt, List.mem_filter, VertexData.matchingArcs, List.mem_append, mem_side_iff,
    mem_side_iff]
  constructor
  · rintro ⟨⟨h, h', hm, ht⟩ | ⟨h, h', hm, ht⟩, hn⟩
    · exact ⟨.inl ⟨h, h', hm⟩, ht, hn⟩
    · exact ⟨.inr ⟨h, h', hm⟩, ht, hn⟩
  · rintro ⟨⟨h, h', hm⟩ | ⟨h, h', hm⟩, ht, hn⟩
    · exact ⟨.inl ⟨h, h', hm, ht⟩, hn⟩
    · exact ⟨.inr ⟨h, h', hm, ht⟩, hn⟩

theorem fst_groups :
    (s.groups anchor filter direction neighbor).map Prod.fst =
      (((s.aimedAt anchor filter direction neighbor).map (·.1)).eraseDups.mergeSort fun a b =>
        a.value ≤ b.value) := by
  rw [groups, List.map_map]
  exact List.map_id _

theorem nodup_groups : ((s.groups anchor filter direction neighbor).map Prod.fst).Nodup := by
  rw [fst_groups]
  exact (List.mergeSort_perm ..).nodup_iff.2 (nodup_eraseDups _)

theorem mem_groups_iff {key : VertexKey} {arcs : List (Direction × StoredArc)} :
    (key, arcs) ∈ s.groups anchor filter direction neighbor ↔
      (∃ seen ∈ s.aimedAt anchor filter direction neighbor, seen.1 = key) ∧
        arcs = ((s.aimedAt anchor filter direction neighbor).filter fun seen =>
          seen.1 == key).map (·.2) := by
  have hkey : key ∈ (s.groups anchor filter direction neighbor).map Prod.fst ↔
      ∃ seen ∈ s.aimedAt anchor filter direction neighbor, seen.1 = key := by
    rw [fst_groups, List.mem_mergeSort, List.mem_eraseDups, List.mem_map]
  rw [← hkey]
  have hgroups : s.groups anchor filter direction neighbor =
      ((s.groups anchor filter direction neighbor).map Prod.fst).map fun k =>
        (k, ((s.aimedAt anchor filter direction neighbor).filter fun seen =>
          seen.1 == k).map (·.2)) := by
    rw [fst_groups]
    rfl
  constructor
  · intro hm
    refine ⟨List.mem_map_of_mem hm, ?_⟩
    rw [hgroups, List.mem_map] at hm
    obtain ⟨k, _, he⟩ := hm
    obtain ⟨rfl, rfl⟩ := Prod.mk.inj he
    rfl
  · rintro ⟨hm, rfl⟩
    rw [hgroups]
    exact List.mem_map_of_mem hm

/-- The neighbor of every group is in the graph. -/
theorem lookupKey_of_mem_groups (hs : s.Sound agree) (ha : s.Live anchor) {group : Group}
    (hm : group ∈ s.groups anchor filter direction neighbor) :
    ∃ c, s.lookupKey group.1 = some c := by
  obtain ⟨n, arcs⟩ := group
  obtain ⟨⟨⟨n, d, a⟩, hseen, rfl⟩, _⟩ := mem_groups_iff.1 hm
  obtain ⟨hside, _⟩ := mem_aimedAt_iff.1 hseen
  have harcs : (s.data anchor).out.arcsTo n ≠ [] ∨ (s.data anchor).inbound.arcsTo n ≠ [] := by
    rcases hside with ⟨_, _, ha⟩ | ⟨_, _, ha⟩
    · exact .inl (List.ne_nil_of_mem ha)
    · exact .inr (List.ne_nil_of_mem ha)
  obtain ⟨c, hc, hk⟩ := hs.paired.known anchor ha n harcs
  exact ⟨c, hk ▸ hs.placed.lookup_key hc⟩

/-- The places of some groups are those of the arcs in them. -/
theorem mem_flatMap_places_iff (keep : VertexKey → Bool) {p : Place} :
    p ∈ ((s.groups anchor filter direction neighbor).filter fun group => keep group.1).flatMap
        (s.places anchor) ↔
      ∃ n seen, (n, seen) ∈ s.aimedAt anchor filter direction neighbor ∧ keep n = true ∧
        p = s.placeOf anchor ((s.lookupKey n).getD anchor) seen := by
  rw [List.mem_flatMap]
  constructor
  · rintro ⟨⟨n, arcs⟩, hm, hp⟩
    obtain ⟨hm, hkeep⟩ := List.mem_filter.1 hm
    obtain ⟨_, rfl⟩ := mem_groups_iff.1 hm
    obtain ⟨seen, hseen, rfl⟩ := List.mem_map.1 hp
    obtain ⟨⟨n', seen'⟩, hm', rfl⟩ := List.mem_map.1 hseen
    obtain ⟨haim, hn⟩ := List.mem_filter.1 hm'
    obtain rfl : n' = n := by simpa using hn
    exact ⟨n', seen', haim, hkeep, rfl⟩
  · rintro ⟨n, seen, haim, hkeep, rfl⟩
    refine ⟨(n, ((s.aimedAt anchor filter direction neighbor).filter fun seen =>
      seen.1 == n).map (·.2)), ?_, ?_⟩
    · exact List.mem_filter.2 ⟨mem_groups_iff.2 ⟨⟨(n, seen), haim, rfl⟩, rfl⟩, hkeep⟩
    · refine List.mem_map_of_mem (List.mem_map.2 ⟨(n, seen), ?_, rfl⟩)
      exact List.mem_filter.2 ⟨haim, BEq.rfl⟩

end Groups

end Arcbase.Store
