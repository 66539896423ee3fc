import Arcbase.Proofs.Store.Groups
import Arcbase.Proofs.Store.Listing
set_option autoImplicit false

/-!
# What a removal is after

Which arcs of a graph a removal around an anchor is after can be told from the arcs
themselves (`Aim.hits`).  The walk finds each of them from the anchor, a loop from both
sides; its groups hold the arcs at whose other end the same vertex is.
-/

namespace Arcbase

/-- What a removal is after: arcs around an anchor that a filter accepts, of all
neighbors or of one. -/
structure Aim where
  anchor : VertexKey
  filter : ArcFilter
  direction : Direction
  neighbor : Option VertexKey

namespace Aim

/-- Outbound arcs of the anchor. -/
def outbound (aim : Aim) (p : PlacedArc) : Bool :=
  aim.direction.includesOut && p.initial == aim.anchor && aim.neighbor.all (· == p.terminal)

/-- Arcs that the anchor has in its inbound index. -/
def inbound (aim : Aim) (p : PlacedArc) : Bool :=
  aim.direction.includesIn && p.terminal == aim.anchor && !p.arc.forwardOnly &&
    aim.neighbor.all (· == p.initial)

/-- Whether the removal is after an arc. -/
def hits (aim : Aim) (p : PlacedArc) : Bool :=
  aim.filter.test p.arc && (aim.outbound p || aim.inbound p)

/-- The end of an arc that is not the anchor; of a loop, the anchor. -/
def otherEnd (aim : Aim) (p : PlacedArc) : VertexKey :=
  if p.initial = aim.anchor then p.terminal else p.initial

end Aim

namespace Store

/-- An arc that is seen from an anchor. -/
def sighted (s : Store) (anchor : CellId) (seen : VertexKey × Direction × StoredArc) : PlacedArc :=
  if seen.2.1 = .inward then ⟨seen.1, s.keyOf anchor, seen.2.2⟩
  else ⟨s.keyOf anchor, seen.1, seen.2.2⟩

variable {agree : Agreement} {s : Store} {anchor : CellId} {filter : ArcFilter}
  {direction : Direction}
  {neighbor : Option VertexKey}

theorem otherEnd_sighted (seen : VertexKey × Direction × StoredArc) :
    Aim.otherEnd ⟨s.keyOf anchor, filter, direction, neighbor⟩ (s.sighted anchor seen) =
      seen.1 := by
  rw [Aim.otherEnd, sighted]
  by_cases hd : seen.2.1 = .inward
  · rw [if_pos hd]
    by_cases hn : seen.1 = s.keyOf anchor
    · rw [if_pos hn, hn]
    · rw [if_neg hn]
  · rw [if_neg hd, if_pos rfl]

/-- The arcs that a removal is after are those that it sees from its anchor. -/
theorem mem_aimedAt_sighted_iff (hs : s.Sound .equal) (ha : s.Live anchor) {p : PlacedArc} :
    (p ∈ s.arcs ∧ Aim.hits ⟨s.keyOf anchor, filter, direction, neighbor⟩ p = true) ↔
      ∃ seen ∈ s.aimedAt anchor filter direction neighbor, s.sighted anchor seen = p := by
  simp only [Aim.hits, Aim.outbound, Aim.inbound, Bool.and_eq_true, Bool.or_eq_true, beq_iff_eq,
    Bool.not_eq_true']
  constructor
  · rintro ⟨hp, ht, ⟨⟨hd, hi⟩, hn⟩ | ⟨⟨⟨hd, hi⟩, hf⟩, hn⟩⟩
    · obtain ⟨c, hc, hk, hm⟩ := (mem_arcs_iff hs.placed).1 hp
      obtain rfl : c = anchor := hs.placed.eq_of_key hc ha (hk.trans hi)
      refine ⟨(p.terminal, .out, p.arc), mem_aimedAt_iff.2 ⟨.inl ⟨rfl, hd, hm⟩, ht, hn⟩, ?_⟩
      rw [sighted, if_neg (fun e => nomatch e), hk]
    · obtain ⟨c, hc, hk, hm⟩ := (mem_arcs_iff hs.placed).1 hp
      have hb : p.arc ∈ (s.data anchor).inbound.arcsTo p.initial :=
        hk ▸ (hs.paired.mem_inbound_iff hc ha).1 ⟨hi ▸ hm, hf⟩
      refine ⟨(p.initial, .inward, p.arc), mem_aimedAt_iff.2 ⟨.inr ⟨rfl, hd, hb⟩, ht, hn⟩, ?_⟩
      rw [sighted, if_pos rfl, ← hi]
  · rintro ⟨⟨n, d, a⟩, hseen, rfl⟩
    obtain ⟨⟨rfl, hd, hm⟩ | ⟨rfl, hd, hb⟩, ht, hn⟩ := mem_aimedAt_iff.1 hseen
    · rw [sighted, if_neg (fun e => nomatch e)]
      exact ⟨(mem_arcs_iff hs.placed).2 ⟨anchor, ha, rfl, hm⟩, ht, .inl ⟨⟨hd, rfl⟩, hn⟩⟩
    · rw [sighted, if_pos rfl]
      obtain ⟨i, hi, rfl⟩ := hs.paired.known anchor ha n (.inr (List.ne_nil_of_mem hb))
      obtain ⟨hm, hf⟩ := (hs.paired.mem_inbound_iff hi ha).2 hb
      exact ⟨(mem_arcs_iff hs.placed).2 ⟨i, hi, rfl, hm⟩, ht, .inr ⟨⟨⟨hd, rfl⟩, hf⟩, hn⟩⟩

/-- An arc that is seen is in its place. -/
theorem placeOf_sighted (hs : s.Sound .equal) (ha : s.Live anchor)
    {seen : VertexKey × Direction × StoredArc}
    (hseen : seen ∈ s.aimedAt anchor filter direction neighbor) {i : CellId} (hi : s.Live i)
    (hk : s.keyOf i = (s.sighted anchor seen).initial) :
    s.placeOf anchor ((s.lookupKey seen.1).getD anchor) seen.2 =
      ⟨i, (s.sighted anchor seen).terminal, seen.2.2.relationship, seen.2.2.kind⟩ := by
  obtain ⟨n, d, a⟩ := seen
  have hn : ∃ m, s.Live m ∧ s.keyOf m = n := by
    obtain ⟨⟨_, _, hm⟩ | ⟨_, _, hb⟩, _⟩ := mem_aimedAt_iff.1 hseen
    · exact hs.paired.known anchor ha n (.inl (List.ne_nil_of_mem hm))
    · exact hs.paired.known anchor ha n (.inr (List.ne_nil_of_mem hb))
  obtain ⟨m, hm, rfl⟩ := hn
  have hlookup : s.lookupKey (s.keyOf m) = some m := hs.placed.lookup_key hm
  dsimp only
  rw [hlookup, Option.getD_some]
  by_cases hd : d = .inward
  · rw [sighted, if_pos hd] at hk ⊢
    rw [placeOf, if_pos hd, hs.placed.eq_of_key hi hm hk]
  · rw [sighted, if_neg hd] at hk ⊢
    rw [placeOf, if_neg hd, hs.placed.eq_of_key hi ha hk]

/-- The places that a removal empties, if it keeps to some neighbors, are those of the
arcs that it is after. -/
theorem mem_places_iff (hs : s.Sound .equal) (ha : s.Live anchor) (filter : ArcFilter)
    (direction : Direction) (neighbor : Option VertexKey) (keep : VertexKey → Bool)
    {p : PlacedArc} {i : CellId} (hi : s.Live i) (hk : s.keyOf i = p.initial)
    (hp : p.arc ∈ (s.data i).out.arcsTo p.terminal) :
    (⟨i, p.terminal, p.arc.relationship, p.arc.kind⟩ : Place) ∈
        ((s.groups anchor filter direction neighbor).filter fun group => keep group.1).flatMap
          (s.places anchor) ↔
      Aim.hits ⟨s.keyOf anchor, filter, direction, neighbor⟩ p = true ∧
        keep (Aim.otherEnd ⟨s.keyOf anchor, filter, direction, neighbor⟩ p) = true := by
  rw [mem_flatMap_places_iff]
  constructor
  · rintro ⟨n, seen, hseen, hkeep, hplace⟩
    have hsighted := (mem_aimedAt_sighted_iff hs ha).2 ⟨(n, seen), hseen, rfl⟩
    obtain ⟨j, hj, hkj, hmj⟩ := (mem_arcs_iff hs.placed).1 hsighted.1
    rw [placeOf_sighted hs ha hseen hj hkj, Place.mk.injEq] at hplace
    obtain ⟨rfl, hterminal, hr, hkind⟩ := hplace
    have hvalid := (hs.paired.valid i hi).1
    have harc : (s.sighted anchor (n, seen)).arc = seen.2 := by
      rw [sighted]
      split <;> rfl
    have hsame : s.sighted anchor (n, seen) = p := by
      rw [hterminal.symm, ArcIndex.mem_arcsTo_iff hvalid, harc, ← hr, ← hkind,
        (ArcIndex.mem_arcsTo_iff hvalid _ _).1 hp] at hmj
      have harcs := (Option.some.inj hmj).trans harc.symm
      obtain ⟨initial, terminal, arc⟩ := p
      dsimp only at hk hterminal harcs
      rw [← hk, hkj, hterminal, harcs]
    rw [← hsame]
    exact ⟨hsighted.2, (otherEnd_sighted (n, seen)).symm ▸ hkeep⟩
  · rintro ⟨hhits, hkeep⟩
    obtain ⟨⟨n, seen⟩, hseen, rfl⟩ := (mem_aimedAt_sighted_iff hs ha).1
      ⟨(mem_arcs_iff hs.placed).2 ⟨i, hi, hk, hp⟩, hhits⟩
    rw [otherEnd_sighted] at hkeep
    refine ⟨n, seen, hseen, hkeep, ?_⟩
    rw [placeOf_sighted hs ha hseen hi hk]
    rw [sighted]
    split <;> rfl

/-! ## Counting the arcs in groups -/

theorem nodup_side {i : ArcIndex} (hv : i.Valid) (b : Bool) (side : Direction) :
    ((if b then i.matching filter else []).map fun (n, a) => (n, side, a)).Nodup := by
  refine List.Nodup.map (fun p q he => ?_) ?_
  · obtain ⟨hn, he⟩ := Prod.mk.inj he
    exact Prod.ext hn (Prod.mk.inj he).2
  · split
    · exact (ArcIndex.nodup_entries hv).filter _
    · exact List.nodup_nil

theorem nodup_aimedAt (hs : s.Sound agree) (ha : s.Live anchor) :
    (s.aimedAt anchor filter direction neighbor).Nodup := by
  obtain ⟨hout, hin⟩ := hs.paired.valid anchor ha
  refine List.Nodup.filter _ (List.nodup_append'.2
    ⟨nodup_side hout _ _, nodup_side hin _ _, fun seen h h' => ?_⟩)
  obtain ⟨_, _, rfl⟩ := List.mem_map.1 h
  obtain ⟨_, _, he⟩ := List.mem_map.1 h'
  cases (Prod.mk.inj (Prod.mk.inj he).2).1

/-- Seen from another vertex, an arc is seen once. -/
theorem perm_sighted (hs : s.Sound .equal) (ha : s.Live anchor) (filter : ArcFilter)
    (direction : Direction) (neighbor : Option VertexKey) (keep : VertexKey → Bool)
    (hself : keep (s.keyOf anchor) = false) :
    (((s.aimedAt anchor filter direction neighbor).filter fun seen => keep seen.1).map
        (s.sighted anchor)).Perm
      (s.arcs.filter fun p => Aim.hits ⟨s.keyOf anchor, filter, direction, neighbor⟩ p &&
        keep (Aim.otherEnd ⟨s.keyOf anchor, filter, direction, neighbor⟩ p)) := by
  have hinj : ∀ seen ∈ (s.aimedAt anchor filter direction neighbor).filter fun seen => keep seen.1,
      ∀ seen' ∈ (s.aimedAt anchor filter direction neighbor).filter fun seen => keep seen.1,
      s.sighted anchor seen = s.sighted anchor seen' → seen = seen' := by
    rintro ⟨n, d, a⟩ hm ⟨n', d', a'⟩ hm' he
    obtain ⟨hseen, hkeep⟩ := List.mem_filter.1 hm
    obtain ⟨hseen', hkeep'⟩ := List.mem_filter.1 hm'
    have hne : n ≠ s.keyOf anchor := fun e => by simp [e, hself] at hkeep
    have hne' : n' ≠ s.keyOf anchor := fun e => by simp [e, hself] at hkeep'
    obtain ⟨⟨rfl, _⟩ | ⟨rfl, _⟩, _⟩ := mem_aimedAt_iff.1 hseen <;>
      obtain ⟨⟨rfl, _⟩ | ⟨rfl, _⟩, _⟩ := mem_aimedAt_iff.1 hseen' <;>
        simp only [sighted, reduceCtorEq, if_true, if_false, PlacedArc.mk.injEq] at he
    · rw [he.2.1, he.2.2]
    · exact absurd he.1.symm hne'
    · exact absurd he.1 hne
    · rw [he.1, he.2.2]
  refine (List.perm_ext_iff_of_nodup (((nodup_aimedAt hs ha).filter _).map_on hinj)
    ((nodup_arcs hs).filter _)).2 fun p => ?_
  rw [List.mem_map, List.mem_filter, Bool.and_eq_true, ← and_assoc, mem_aimedAt_sighted_iff hs ha]
  constructor
  · rintro ⟨seen, hm, rfl⟩
    obtain ⟨hseen, hkeep⟩ := List.mem_filter.1 hm
    exact ⟨⟨seen, hseen, rfl⟩, (otherEnd_sighted seen).symm ▸ hkeep⟩
  · rintro ⟨⟨seen, hseen, rfl⟩, hkeep⟩
    rw [otherEnd_sighted] at hkeep
    exact ⟨seen, List.mem_filter.2 ⟨hseen, hkeep⟩, rfl⟩

theorem length_groups_filter (keep : VertexKey → Bool) :
    (((s.groups anchor filter direction neighbor).filter fun group => keep group.1).map
        fun group => group.2.length).sum =
      ((s.aimedAt anchor filter direction neighbor).filter fun seen => keep seen.1).length := by
  have hnodup : (((s.groups anchor filter direction neighbor).filter fun group =>
      keep group.1).map Prod.fst).Nodup :=
    nodup_groups.sublist (List.filter_sublist.map _)
  rw [length_eq_sum_countP hnodup (fun seen => seen.1), List.map_map]
  · refine congrArg List.sum (List.map_congr_left fun group hm => ?_)
    obtain ⟨hm, hkeep⟩ := List.mem_filter.1 hm
    obtain ⟨_, harcs⟩ := mem_groups_iff.1 hm
    rw [harcs, List.length_map, Function.comp_apply, List.countP_filter,
      List.countP_eq_length_filter]
    refine congrArg List.length (List.filter_congr fun seen _ => ?_)
    by_cases he : seen.1 = group.1
    · simp [he, hkeep]
    · simp [he]
  · intro seen hm
    obtain ⟨hseen, hkeep⟩ := List.mem_filter.1 hm
    exact List.mem_map_of_mem
      (List.mem_filter.2 ⟨mem_groups_iff.2 ⟨⟨seen, hseen, rfl⟩, rfl⟩, hkeep⟩)

theorem groups_filter_eq_nil_iff (s : Store) (anchor : CellId) (filter : ArcFilter)
    (direction : Direction) (neighbor : Option VertexKey) (keep : VertexKey → Bool) :
    (s.groups anchor filter direction neighbor).filter (fun group => keep group.1) = [] ↔
      (s.aimedAt anchor filter direction neighbor).filter (fun seen => keep seen.1) = [] := by
  rw [List.filter_eq_nil_iff, List.filter_eq_nil_iff]
  constructor
  · intro h seen hseen
    exact h (seen.1, _) (mem_groups_iff.2 ⟨⟨seen, hseen, rfl⟩, rfl⟩)
  · rintro h ⟨key, arcs⟩ hm
    obtain ⟨⟨seen, hseen, rfl⟩, _⟩ := mem_groups_iff.1 hm
    exact h seen hseen

end Store

end Arcbase
