import Mathlib.Algebra.BigOperators.Group.Finset.Basic
import Arcbase.Proofs.Store.Step
set_option autoImplicit false

/-!
# Stores whose arcs have two sides

What `Paired` says of live vertices by way of slots is said here of the registered
vertices and of the arcs themselves (`TwoSided`), for stores where both sides of a
regular arc hold the same.  All arcs can then be counted at their initials or at their
terminals.
-/

namespace Arcbase

/-! ## Counting by parts -/

/-- The elements of a list, counted by the values that a function has on them. -/
theorem length_eq_sum_countP {α β : Type} [DecidableEq β] {parts : List β} (hnodup : parts.Nodup)
    (f : α → β) {l : List α} (h : ∀ x ∈ l, f x ∈ parts) :
    l.length = (parts.map fun n => l.countP fun x => f x = n).sum := by
  have hmem : ∀ n ∈ (↑(l.map f) : Multiset β), n ∈ parts.toFinset := by
    intro n hn
    obtain ⟨x, hx, rfl⟩ := List.mem_map.1 (Multiset.mem_coe.1 hn)
    exact List.mem_toFinset.2 (h x hx)
  have hsum := Multiset.sum_count_eq_card hmem
  rw [List.sum_toFinset _ hnodup, Multiset.coe_card, List.length_map] at hsum
  rw [← hsum]
  refine congrArg List.sum (List.map_congr_left fun n _ => ?_)
  rw [Multiset.coe_count, List.count_eq_countP, List.countP_map]
  rfl

theorem sum_sum_comm {α β : Type} (l : List α) (m : List β) (f : α → β → Nat) :
    (l.map fun a => (m.map (f a)).sum).sum = (m.map fun b => (l.map fun a => f a b).sum).sum := by
  induction l with
  | nil => simp
  | cons a rest ih => simp only [List.map_cons, List.sum_cons, ih, List.sum_map_add]

/-- The arcs of an index, counted by the neighbors they go to. -/
theorem ArcIndex.size_eq_sum {i : ArcIndex} (h : i.Valid) {keys : List VertexKey}
    (hnodup : keys.Nodup) (hknown : ∀ n, i.arcsTo n ≠ [] → n ∈ keys) :
    i.size = (keys.map fun n => (i.arcsTo n).length).sum := by
  have hkeys : ∀ p ∈ i.entries, p.1 ∈ keys := fun p hp =>
    hknown p.1 (List.ne_nil_of_mem (mem_entries_iff.1 hp))
  rw [← length_entries h, length_eq_sum_countP hnodup Prod.fst hkeys]
  refine congrArg List.sum (List.map_congr_left fun n _ => ?_)
  rw [arcsTo_eq_filter_entries, List.length_map, List.countP_eq_length_filter]

namespace Store

/-! ## The two sides -/

/-- What the registered vertices say of the arcs between them. -/
structure TwoSided (s : Store) : Prop where
  /-- a registered vertex is found under its own key, and it is not deleted -/
  registered : ∀ c ∈ s.registered, s.lookupKey (s.keyOf c) = some c ∧ (s.data c).deleted = false
  /-- no slot is filled twice -/
  distinct : ∀ c ∈ s.registered, ∀ n,
    Slots.Distinct ((s.data c).out.arcsTo n) ∧ Slots.Distinct ((s.data c).inbound.arcsTo n)
  /-- the inbound arcs of a vertex are the arcs to it that are not forward-only -/
  mirrored : ∀ i ∈ s.registered, ∀ t ∈ s.registered, ∀ a,
    a ∈ (s.data i).out.arcsTo (s.keyOf t) ∧ a.forwardOnly = false ↔
      a ∈ (s.data t).inbound.arcsTo (s.keyOf i)
  /-- no forward-only arc is inbound anywhere -/
  forward : ∀ t ∈ s.registered, ∀ n, ∀ a ∈ (s.data t).inbound.arcsTo n, a.forwardOnly = false
  /-- the forward-only arcs to a vertex are counted there -/
  counted : ∀ t ∈ s.registered,
    (s.data t).forwardOnlyIn = (s.registered.map (s.forwardOnlyTo t)).sum
  /-- a vertex to which there is a forward-only arc can count it off -/
  countable : ∀ i ∈ s.registered, ∀ t ∈ s.registered,
    ∀ a ∈ (s.data i).out.arcsTo (s.keyOf t), a.forwardOnly = true → 0 < (s.data t).forwardOnlyIn
  /-- the neighbors in an index are registered -/
  known : ∀ c ∈ s.registered, ∀ n, (s.data c).out.arcsTo n ≠ [] ∨ (s.data c).inbound.arcsTo n ≠ [] →
    ∃ m ∈ s.registered, s.keyOf m = n
  /-- the lengths of the indexes are those of their contents -/
  lengths : ∀ c ∈ s.registered, (s.data c).out.size = (s.data c).out.entries.length ∧
    (s.data c).inbound.size = (s.data c).inbound.entries.length
  /-- the size counts all arcs at their initials -/
  outward : s.size = (s.registered.map fun c => (s.data c).out.size).sum
  /-- and all arcs at their terminals -/
  inward : s.size =
    (s.registered.map fun c => (s.data c).inbound.size + (s.data c).forwardOnlyIn).sum

variable {s : Store}

theorem nodup_keys (hp : s.Placed) : (s.registered.map s.keyOf).Nodup := by
  refine (nodup_registered hp).map_on fun c hc c' hc' he => ?_
  exact hp.eq_of_key ((mem_registered_iff hp).1 hc) ((mem_registered_iff hp).1 hc') he

/-- The arcs of an index of a vertex, counted by the vertices at their other ends. -/
theorem size_eq_sum_registered (hp : s.Placed) {i : ArcIndex} (hv : i.Valid)
    (hknown : ∀ n, i.arcsTo n ≠ [] → ∃ m, s.Live m ∧ s.keyOf m = n) :
    i.size = (s.registered.map fun c => (i.arcsTo (s.keyOf c)).length).sum := by
  have hkeys : ∀ n, i.arcsTo n ≠ [] → n ∈ s.registered.map s.keyOf := by
    intro n hn
    obtain ⟨m, hm, rfl⟩ := hknown n hn
    exact List.mem_map_of_mem ((mem_registered_iff hp).2 hm)
  rw [ArcIndex.size_eq_sum hv (nodup_keys hp) hkeys, List.map_map]
  rfl

/-- A regular arc is held by both of its vertices or by neither. -/
theorem Paired.mem_inbound_iff (h : s.Paired .equal) {i t : CellId} (hi : s.Live i)
    (ht : s.Live t) {a : StoredArc} :
    a ∈ (s.data i).out.arcsTo (s.keyOf t) ∧ a.forwardOnly = false ↔
      a ∈ (s.data t).inbound.arcsTo (s.keyOf i) := by
  rw [ArcIndex.mem_arcsTo_iff (h.valid i hi).1, ArcIndex.mem_arcsTo_iff (h.valid t ht).2]
  constructor
  · rintro ⟨ha, hf⟩
    obtain ⟨b, hb, rfl⟩ := h.inward_of_out hi ht ha hf
    exact hb
  · intro hb
    obtain ⟨b, hfound, hf, rfl⟩ :=
      h.out_of_inward hi ht ((ArcIndex.mem_arcsTo_iff (h.valid t ht).2 _ a).2 hb)
    exact ⟨hfound, hf⟩

/-- The arcs from one vertex to another are those inbound there and the forward-only ones. -/
theorem Paired.length_arcsTo (h : s.Paired .equal) {i t : CellId} (hi : s.Live i)
    (ht : s.Live t) :
    ((s.data i).out.arcsTo (s.keyOf t)).length =
      ((s.data t).inbound.arcsTo (s.keyOf i)).length + s.forwardOnlyTo t i := by
  have hperm : (((s.data i).out.arcsTo (s.keyOf t)).filter fun a => !a.forwardOnly).Perm
      ((s.data t).inbound.arcsTo (s.keyOf i)) := by
    have hout := ArcIndex.distinct_arcsTo (h.valid i hi).1 (s.keyOf t)
    have hin := ArcIndex.distinct_arcsTo (h.valid t ht).2 (s.keyOf i)
    refine (List.perm_ext_iff_of_nodup ((List.Nodup.of_map _ hout).filter _)
      (List.Nodup.of_map _ hin)).2 fun a => ?_
    rw [List.mem_filter, ← h.mem_inbound_iff hi ht]
    simp
  rw [← hperm.length_eq, ← List.countP_eq_length_filter, forwardOnlyTo, Nat.add_comm]
  simpa only [Bool.not_eq_true, Bool.decide_eq_false] using
    List.length_eq_countP_add_countP (fun a : StoredArc => a.forwardOnly)

/-- All arcs are inbound or counted as forward-only, each at its terminal. -/
theorem Paired.size_eq_inward (h : s.Paired .equal) (hp : s.Placed) : s.size =
    (s.registered.map fun c => (s.data c).inbound.size + (s.data c).forwardOnlyIn).sum := by
  have hlive : ∀ {c}, c ∈ s.registered → s.Live c := fun hc => (mem_registered_iff hp).1 hc
  calc s.size
      = (s.registered.map fun i => (s.data i).out.size).sum := h.size
    _ = (s.registered.map fun i => (s.registered.map fun t =>
          ((s.data i).out.arcsTo (s.keyOf t)).length).sum).sum := by
        refine congrArg List.sum (List.map_congr_left fun i hi => ?_)
        exact size_eq_sum_registered hp (h.valid i (hlive hi)).1 fun n hn =>
          h.known i (hlive hi) n (.inl hn)
    _ = (s.registered.map fun t => (s.registered.map fun i =>
          ((s.data i).out.arcsTo (s.keyOf t)).length).sum).sum := sum_sum_comm _ _ _
    _ = (s.registered.map fun t => (s.data t).inbound.size + (s.data t).forwardOnlyIn).sum := by
        refine congrArg List.sum (List.map_congr_left fun t ht => ?_)
        have hin := size_eq_sum_registered hp (h.valid t (hlive ht)).2 fun n hn =>
          h.known t (hlive ht) n (.inr hn)
        rw [hin, h.counted t (hlive ht), ← List.sum_map_add]
        refine congrArg List.sum (List.map_congr_left fun i hi => ?_)
        exact h.length_arcsTo (hlive hi) (hlive ht)

theorem Sound.twoSided (h : s.Sound .equal) : s.TwoSided := by
  obtain ⟨hp, hpaired⟩ := h
  have hlive : ∀ {c}, c ∈ s.registered → s.Live c := fun hc => (mem_registered_iff hp).1 hc
  refine ⟨?_, ?_, ?_, ?_, ?_, ?_, ?_, ?_, hpaired.size, hpaired.size_eq_inward hp⟩
  · exact fun c hc => ⟨hp.lookup_key (hlive hc), (hlive hc).2⟩
  · exact fun c hc n => ⟨ArcIndex.distinct_arcsTo (hpaired.valid c (hlive hc)).1 n,
      ArcIndex.distinct_arcsTo (hpaired.valid c (hlive hc)).2 n⟩
  · exact fun i hi t ht a => hpaired.mem_inbound_iff (hlive hi) (hlive ht)
  · exact fun t ht => hpaired.regular t (hlive ht)
  · exact fun t ht => hpaired.counted t (hlive ht)
  · intro i hi t ht a ha hf
    exact hpaired.forwardOnlyIn_pos hp (hlive hi) (hlive ht)
      ((ArcIndex.mem_arcsTo_iff (hpaired.valid i (hlive hi)).1 _ a).1 ha) hf
  · intro c hc n hn
    obtain ⟨m, hm, hk⟩ := hpaired.known c (hlive hc) n hn
    exact ⟨m, (mem_registered_iff hp).2 hm, hk⟩
  · exact fun c hc => ⟨(ArcIndex.length_entries (hpaired.valid c (hlive hc)).1).symm,
      (ArcIndex.length_entries (hpaired.valid c (hlive hc)).2).symm⟩

end Store

end Arcbase
