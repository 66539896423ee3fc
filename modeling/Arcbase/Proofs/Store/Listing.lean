import Arcbase.Proofs.Store.TwoSided
set_option autoImplicit false

/-!
# The arcs of a graph

All arcs of a graph in one list, each with the keys of its two ends.  No arc is listed
twice, and the size of the graph is the length of the list.  A vertex has no degree
exactly if no arc in the list touches it.
-/

namespace Arcbase

/-- An arc between two vertices. -/
structure PlacedArc where
  initial : VertexKey
  terminal : VertexKey
  arc : StoredArc
  deriving DecidableEq

namespace PlacedArc

/-- Whether the arc begins or ends at a vertex. -/
def touches (p : PlacedArc) (key : VertexKey) : Prop := p.initial = key ∨ p.terminal = key

end PlacedArc

namespace Store

/-- The arcs that begin at a vertex. -/
def arcsFrom (s : Store) (c : CellId) : List PlacedArc :=
  (s.data c).out.entries.map fun (n, a) => ⟨s.keyOf c, n, a⟩

/-- All arcs. -/
def arcs (s : Store) : List PlacedArc := s.registered.flatMap s.arcsFrom

variable {agree : Agreement} {s s' : Store}

theorem mem_arcs_iff (hp : s.Placed) {p : PlacedArc} :
    p ∈ s.arcs ↔
      ∃ c, s.Live c ∧ s.keyOf c = p.initial ∧ p.arc ∈ (s.data c).out.arcsTo p.terminal := by
  obtain ⟨initial, terminal, arc⟩ := p
  simp only [arcs, arcsFrom, List.mem_flatMap, mem_registered_iff hp, List.mem_map,
    PlacedArc.mk.injEq, Prod.exists]
  refine exists_congr fun c => and_congr_right fun _ => ?_
  constructor
  · rintro ⟨n, a, hm, rfl, rfl, rfl⟩
    exact ⟨rfl, ArcIndex.mem_entries_iff.1 hm⟩
  · rintro ⟨rfl, hm⟩
    exact ⟨terminal, arc, ArcIndex.mem_entries_iff.2 hm, rfl, rfl, rfl⟩

theorem nodup_arcs (hs : s.Sound agree) : s.arcs.Nodup := by
  refine List.nodup_flatMap.2 ⟨fun c hc => ?_, ?_⟩
  · have hv := (hs.paired.valid c ((mem_registered_iff hs.placed).1 hc)).1
    refine (ArcIndex.nodup_entries hv).map fun p q he => ?_
    obtain ⟨_, hn, ha⟩ := PlacedArc.mk.inj he
    exact Prod.ext hn ha
  · refine (List.pairwise_map.1 (nodup_keys hs.placed)).imp fun {c c'} hne => ?_
    intro p hp hp'
    obtain ⟨_, _, rfl⟩ := List.mem_map.1 hp
    obtain ⟨_, _, he⟩ := List.mem_map.1 hp'
    exact hne (PlacedArc.mk.inj he).1.symm

theorem length_arcs (hs : s.Sound agree) : s.arcs.length = s.size := by
  rw [arcs, List.length_flatMap, hs.paired.size]
  refine congrArg List.sum (List.map_congr_left fun c hc => ?_)
  rw [arcsFrom, List.length_map, ArcIndex.length_entries
    (hs.paired.valid c ((mem_registered_iff hs.placed).1 hc)).1]

/-- Both ends of every arc are in the graph. -/
theorem live_of_mem_arcs (hs : s.Sound agree) {p : PlacedArc} (hp : p ∈ s.arcs) {key : VertexKey}
    (ht : p.touches key) : ∃ c, s.Live c ∧ s.keyOf c = key := by
  obtain ⟨c, hc, hk, ha⟩ := (mem_arcs_iff hs.placed).1 hp
  rcases ht with rfl | rfl
  · exact ⟨c, hc, hk⟩
  · exact hs.paired.known c hc _ (.inl (List.ne_nil_of_mem ha))

/-- A vertex without degree is one that no arc touches. -/
theorem degree_eq_zero_iff (hs : s.Sound agree) {c : CellId} (hc : s.Live c) :
    (s.data c).degree = 0 ↔ ∀ p ∈ s.arcs, ¬ p.touches (s.keyOf c) := by
  rw [hs.paired.bare_iff hc]
  constructor
  · intro hb p hp ht
    obtain ⟨i, hi, hk, ha⟩ := (mem_arcs_iff hs.placed).1 hp
    rcases ht with he | he
    · obtain rfl : i = c := hs.placed.eq_of_key hi hc (hk.trans he)
      rw [hb.out] at ha
      exact List.not_mem_nil ha
    · rw [he, (hs.paired.arcsTo_of_bare hc hb hs.placed hi).1] at ha
      exact List.not_mem_nil ha
  · intro hnone
    have hto : ∀ i, s.Live i → ∀ a, a ∉ (s.data i).out.arcsTo (s.keyOf c) := fun i hi a ha =>
      hnone ⟨s.keyOf i, s.keyOf c, a⟩ ((mem_arcs_iff hs.placed).2 ⟨i, hi, rfl, ha⟩) (.inr rfl)
    refine ⟨?_, ?_, ?_⟩
    · refine ArcIndex.eq_empty_of_arcsTo (hs.paired.valid c hc).1 fun n a ha => ?_
      exact hnone ⟨s.keyOf c, n, a⟩ ((mem_arcs_iff hs.placed).2 ⟨c, hc, rfl, ha⟩) (.inl rfl)
    · refine ArcIndex.eq_empty_of_arcsTo (hs.paired.valid c hc).2 fun n b hb => ?_
      obtain ⟨i, hi, rfl⟩ := hs.paired.known c hc n (.inr (List.ne_nil_of_mem hb))
      obtain ⟨a, ha, _⟩ := hs.paired.out_of_inward hi hc hb
      exact hto i hi a (ArcIndex.get?_slot ha).1
    · rw [hs.paired.counted c hc, List.sum_eq_zero_iff_forall_eq_nat]
      intro n hn
      obtain ⟨i, hi, rfl⟩ := List.mem_map.1 hn
      refine List.countP_eq_zero.2 fun a ha => ?_
      exact absurd ha (hto i ((mem_registered_iff hs.placed).1 hi) a)

end Store

end Arcbase
