import Arcbase.Proofs.Session.Probing
import Mathlib
set_option autoImplicit false

/-!
# All ways to read a graph agree

Counting, looking up, listing, walking and taking a snapshot go through the same indexes,
each in its own way.  To a caller that nothing stands in the way of they show one graph
(`views_agree`): the arcs that a probe selects around a vertex (`Session.Probed`), and all
arcs of the vertex as they stand in the snapshot and at the other ends (`Session.Listed`).
-/

namespace Arcbase

open Guard Store Arcbase.Action

/-- An arc that is reported, as a snapshot lists it. -/
def ArcRecord.listed (x : ArcRecord) : ArcSnapshot :=
  { initial := x.initial
    relationship := x.relationship
    kind := x.kind
    value := x.value
    forwardOnly := x.forwardOnly
    terminal := x.terminal }

namespace Store

variable {s : Store} {a c : CellId} {anchor b : String}

theorem filterOf_side (s : Store) (direction : Direction) :
    s.filterOf (.side direction) = .ok ⟨.any, none, .any⟩ := rfl

/-! ## Both sides of a vertex -/

theorem seen_out (s : Store) (a : CellId) : s.seen a (.side .out) =
    (s.data a).out.entries.map fun (n, arc) => (n, .out, arc) := by
  have hall : (s.data a).arcsOn .out = (s.data a).out.entries.map fun (n, arc) => (n, .out, arc) :=
    List.append_nil _
  exact (List.filter_eq_self.2 fun _ _ => rfl).trans hall

theorem seen_inward (s : Store) (a : CellId) : s.seen a (.side .inward) =
    (s.data a).inbound.entries.map fun (n, arc) => (n, .inward, arc) :=
  List.filter_eq_self.2 fun _ _ => rfl

/-- The arcs that leave a vertex are the ones that its snapshot lists. -/
theorem listed_out (hs : s.Sound .equal) (ha : s.Live a) :
    ((s.seen a (.side .out)).map fun x => (s.entryOf a x).arc.listed) = s.arcSnapshots a := by
  rw [seen_out, List.map_map, arcSnapshots, ← List.filterMap_eq_map]
  refine List.filterMap_congr fun e he => ?_
  obtain ⟨n, arc⟩ := e
  obtain ⟨t, ht, rfl⟩ := hs.paired.known a ha n
    (.inl (List.ne_nil_of_mem (ArcIndex.mem_entries_iff.1 he)))
  have hkey : s.lookupKey (s.keyOf t) = some t := hs.placed.lookup_key ht
  have hfar : s.farVertex (s.keyOf t, .out, arc) = t := by
    rw [farVertex, hkey]
    rfl
  simp only [hkey, Option.map_some, Function.comp_apply, entryOf, Level.candidate, hfar]
  rfl

theorem initial_of_mem_arcSnapshots {x : ArcSnapshot} (hx : x ∈ s.arcSnapshots c) :
    x.initial = (s.cell c).id := by
  obtain ⟨e, _, hfound⟩ := List.mem_filterMap.1 hx
  obtain ⟨t, _, rfl⟩ := Option.map_eq_some_iff.1 hfound
  rfl

/-- A snapshot lists the arcs of a vertex among all others. -/
theorem perm_arcSnapshots (hs : s.Legible) (hanchor : s.lookup anchor = some a) :
    (s.arcSnapshots a).Perm (s.toSnapshot.arcs.filter fun x => x.initial = anchor) := by
  have hp := hs.sound.placed
  obtain ⟨ha, rfl⟩ := hp.of_lookup hanchor
  have hnodup := nodup_arcs_toSnapshot hs.sound hs.named
  have hparts : (s.ordered.flatMap s.arcSnapshots).Nodup :=
    (List.mergeSort_perm _ _).nodup_iff.1 hnodup
  refine (List.perm_ext_iff_of_nodup ((List.nodup_flatMap.1 hparts).1 a
    ((mem_ordered_iff hp).2 ha)) (hnodup.filter _)).2 fun x => ?_
  simp only [toSnapshot, List.mem_filter, List.mem_mergeSort, List.mem_flatMap, decide_eq_true_eq]
  constructor
  · intro hx
    exact ⟨⟨a, (mem_ordered_iff hp).2 ha, hx⟩, initial_of_mem_arcSnapshots hx⟩
  · rintro ⟨⟨c, hc, hx⟩, hinitial⟩
    rw [initial_of_mem_arcSnapshots hx] at hinitial
    rwa [hp.eq_of_id ((mem_ordered_iff hp).1 hc) ha hinitial] at hx

/-- The forward-only arcs toward a vertex, counted in the snapshot. -/
theorem forwardOnlyIn_eq_toSnapshot (hs : s.Legible) (hanchor : s.lookup anchor = some a) :
    (s.data a).forwardOnlyIn =
      s.toSnapshot.arcs.countP fun x => x.terminal = anchor ∧ x.forwardOnly = true := by
  have hp := hs.sound.placed
  have ha := (hp.of_lookup hanchor).1
  rw [forwardOnlyIn_eq_countP hs.sound ha, ← (perm_links_toSnapshot hs.sound).countP_eq,
    List.countP_map]
  refine List.countP_congr fun x hx => ?_
  have hterminal := (contains_of_mem_arcs_toSnapshot hs.sound hx).2
  have hkey : x.link.terminal = s.keyOf a ↔ x.terminal = anchor := by
    have hlink : x.link.terminal = .of x.terminal := rfl
    rw [hp.keyOf_of_lookup hanchor, hlink]
    exact ⟨hp.eq_of_contains hterminal (Option.isSome_of_eq_some hanchor),
      congrArg VertexKey.of⟩
  rw [Function.comp_apply, decide_eq_true_eq, decide_eq_true_eq, hkey]
  rfl

/-- The degree of a vertex counts its arcs on both sides, and the forward-only arcs toward
it. -/
theorem degree_eq_seen (hs : s.Legible) (hanchor : s.lookup anchor = some a) :
    (s.data a).degree = (s.seen a (.side .out)).length + (s.seen a (.side .inward)).length +
      s.toSnapshot.arcs.countP fun x => x.terminal = anchor ∧ x.forwardOnly = true := by
  have ha := (hs.sound.placed.of_lookup hanchor).1
  obtain ⟨hout, hinbound⟩ := hs.sound.paired.valid a ha
  rw [seen_out, seen_inward, List.length_map, List.length_map, ArcIndex.length_entries hout,
    ArcIndex.length_entries hinbound, ← forwardOnlyIn_eq_toSnapshot hs hanchor, VertexData.degree,
    VertexData.indegree, VertexData.outdegree]
  omega

/-- A regular arc from one vertex to another is seen at its end as it is at its start. -/
theorem seen_out_iff_inward (hs : s.Sound .equal) (hanchor : s.lookup anchor = some a)
    (hb : s.lookup b = some c) (Q : StoredArc → Prop) :
    (∃ x ∈ s.seen a (.side .out), (s.entryOf a x).arc.neighbor = b ∧
      x.2.2.forwardOnly = false ∧ Q x.2.2) ↔
    ∃ y ∈ s.seen c (.side .inward), (s.entryOf c y).arc.neighbor = anchor ∧ Q y.2.2 := by
  obtain ⟨ha, -⟩ := hs.placed.of_lookup hanchor
  obtain ⟨hc, -⟩ := hs.placed.of_lookup hb
  have hmirror : ∀ arc, (s.keyOf c, arc) ∈ (s.data a).out.entries ∧ arc.forwardOnly = false ↔
      (s.keyOf a, arc) ∈ (s.data c).inbound.entries := fun arc => by
    rw [ArcIndex.mem_entries_iff, ArcIndex.mem_entries_iff, hs.paired.mem_inbound_iff ha hc]
  constructor
  · rintro ⟨x, hx, hneighbor, hregular, hq⟩
    have hkey := (neighbor_entryOf hs ha hb hx).1 hneighbor
    rw [seen_out] at hx
    obtain ⟨⟨n, arc⟩, hm, rfl⟩ := List.mem_map.1 hx
    obtain rfl : n = s.keyOf c := hkey
    have hy : (s.keyOf a, Direction.inward, arc) ∈ s.seen c (.side .inward) := by
      rw [seen_inward]
      exact List.mem_map.2 ⟨_, (hmirror arc).1 ⟨hm, hregular⟩, rfl⟩
    exact ⟨_, hy, (neighbor_entryOf hs hc hanchor hy).2 rfl, hq⟩
  · rintro ⟨y, hy, hneighbor, hq⟩
    have hkey := (neighbor_entryOf hs hc hanchor hy).1 hneighbor
    rw [seen_inward] at hy
    obtain ⟨⟨n, arc⟩, hm, rfl⟩ := List.mem_map.1 hy
    obtain rfl : n = s.keyOf a := hkey
    obtain ⟨hout, hregular⟩ := (hmirror arc).2 hm
    have hx : (s.keyOf c, Direction.out, arc) ∈ s.seen a (.side .out) := by
      rw [seen_out]
      exact List.mem_map.2 ⟨_, hout, rfl⟩
    exact ⟨_, hx, (neighbor_entryOf hs ha hb hx).2 rfl, hregular, hq⟩

end Store

/-! ## Sessions -/

/-- What is read of all arcs around a vertex: as a snapshot lists them, as they are listed on
both sides, as they are listed at their other ends, and by degree. -/
structure Session.Listed (s : Session) (who : Caller) (anchor : String) (timeout : Option Nat)
    (taken : Snapshot) (outs ins : List ArcRecord) : Prop where
  snapshot : (s.ask who .snapshot).1 = .ok taken
  outarcs : (s.ask who (.outarcs anchor timeout)).1 = .ok outs
  inarcs : (s.ask who (.inarcs anchor timeout)).1 = .ok ins
  out : (outs.map ArcRecord.listed).Perm (taken.arcs.filter fun x => x.initial = anchor)
  back : ∀ b, s.store.contains b = true →
    ∃ others, (s.ask who (.inarcs b timeout)).1 = .ok others ∧ ∀ relationship kind value,
      (∃ x ∈ outs, x.neighbor = b ∧ x.forwardOnly = false ∧
        x.relationship = relationship ∧ x.kind = kind ∧ x.value = value) ↔
      ∃ y ∈ others, y.neighbor = anchor ∧
        y.relationship = relationship ∧ y.kind = kind ∧ y.value = value
  degree : (s.ask who (.degree anchor none)).1 = .ok (outs.length + ins.length +
    taken.arcs.countP fun x => x.terminal = anchor ∧ x.forwardOnly = true)

variable {s : Session} {who : Caller} {anchor : String} {a : CellId} {p : Probe}
  {timeout : Option Nat} {plan : Plan}

/-- The arcs on one side of a vertex. -/
theorem Session.probed_side (hs : s.Sound .equal) (hidle : s.IdleFor who)
    (hnamed : s.store.WellNamed) (hroom : 1 < s.store.locks.limit)
    (hanchor : s.store.lookup anchor = some a) (direction : Direction) (timeout : Option Nat) :
    ∃ result, s.Probed who anchor (.side direction) timeout result ∧
      result.arcs = (s.store.seen a (.side direction)).map fun x => (s.store.entryOf a x).arc := by
  have hname : s.store.identifierFault? anchor = none := by
    obtain ⟨ha, rfl⟩ := hs.store.placed.of_lookup hanchor
    exact hnamed a ha.1
  obtain ⟨result, hprobed, hentries⟩ := Session.probed_of_idle hs hidle
    (plan_oneLevel hname hroom (filterOf_side s.store direction) timeout) hanchor
  refine ⟨result, hprobed, ?_⟩
  rw [QueryResult.arcs, hentries, List.map_map]
  rfl

theorem Session.listed_of_idle (hs : s.Sound .equal) (hls : s.store.Legible)
    (hidle : s.IdleFor who) (hnamed : s.store.WellNamed) (hroom : 1 < s.store.locks.limit)
    (hanchor : s.store.lookup anchor = some a) (timeout : Option Nat) :
    ∃ taken outs ins, s.Listed who anchor timeout taken outs ins := by
  have hopen := hidle.openTo hs
  have hp := hs.store.placed
  have ha := (hp.of_lookup hanchor).1
  obtain ⟨outward, hout, houts⟩ := Session.probed_side hs hidle hnamed hroom hanchor .out timeout
  obtain ⟨inbound, hin, hins⟩ := Session.probed_side hs hidle hnamed hroom hanchor .inward timeout
  refine ⟨s.store.toSnapshot, outward.arcs, inbound.arcs,
    { snapshot := ask_of_answers hs .snapshot (answers_toSnapshot hopen hp)
      outarcs := hout.outarcs rfl
      inarcs := hin.inarcs rfl
      out := ?_
      back := fun b hb => ?_
      degree := ?_ }⟩
  · have hlisted := listed_out hs.store ha
    rw [houts, List.map_map]
    exact (List.Perm.of_eq hlisted).trans (perm_arcSnapshots hls hanchor)
  · obtain ⟨c, hc⟩ := Option.isSome_iff_exists.1 hb
    obtain ⟨others, hothers, hback⟩ := Session.probed_side hs hidle hnamed hroom hc .inward timeout
    refine ⟨others.arcs, hothers.inarcs rfl, fun relationship kind value => ?_⟩
    have hmirror := seen_out_iff_inward hs.store hanchor hc fun arc =>
      s.store.labels.relationshipLabel arc.relationship = relationship ∧ arc.kind = kind ∧
        arc.value = value
    rw [houts, hback]
    simp only [List.mem_map, exists_exists_and_eq_and]
    exact hmirror
  · rw [ask_of_answers hs (.degree anchor none) (answers_degreeOf hopen hp anchor none), houts,
      hins, List.length_map, List.length_map, ← degree_eq_seen hls hanchor, degreeOf, found,
      hanchor]
    rfl

/-- Every way to read a graph in use shows the same arcs, to a caller that holds nothing while
nobody else holds anything writable, and through every probe for which a query is planned. -/
theorem views_agree (h : Arises Operation.Live s) (hidle : s.IdleFor who)
    (hanchor : s.store.contains anchor = true)
    (hplan : (Query.oneLevel anchor p timeout).plan s.store = .ok plan) :
    (∃ result, s.Probed who anchor p timeout result) ∧
      ∃ taken outs ins, s.Listed who anchor timeout taken outs ins := by
  have hs := h.reach.sound_live
  obtain ⟨a, ha⟩ := Option.isSome_iff_exists.1 hanchor
  obtain ⟨_, hroom, _⟩ := planned_oneLevel hplan
  obtain ⟨result, hprobed, _⟩ := Session.probed_of_idle hs hidle hplan ha
  exact ⟨⟨result, hprobed⟩, Session.listed_of_idle hs ⟨hs.store, h.lawful.named⟩ hidle
    h.lawful.wellNamed hroom ha timeout⟩

/-- A loop is seen on both of its sides, a forward-only arc on one. -/
theorem views_agree_looped :
    (∃ result, looped.Probed ⟨⟨"m"⟩, 7⟩ "a" .any none result ∧ result.total = 3) ∧
      ∃ taken outs ins, looped.Listed ⟨⟨"m"⟩, 7⟩ "a" none taken outs ins := by
  obtain ⟨hempty, hbefore, hthree⟩ : looped.handles.size = 0 ∧
      (looped.store.contains "a" = true ∧ looped.store.identifierFault? "a" = none ∧
        looped.store.locks.limit = 112) ∧
      (looped.ask ⟨⟨"m"⟩, 7⟩ (.degree "a" (some .any))).1 = .ok 3 := by
    set_option maxRecDepth 10000 in
    cbv
  have hidle : looped.IdleFor ⟨⟨"m"⟩, 7⟩ := by
    intro name g hg
    exact absurd (hg.symm.trans (AssocMap.get?_eq_none_of_size_eq_zero hempty name))
      (Option.some_ne_none g)
  have hroom : 1 < looped.store.locks.limit := hbefore.2.2 ▸ by decide
  have hplan := plan_oneLevel hbefore.2.1 hroom (filterOf_side looped.store .any) none
  obtain ⟨⟨result, hprobed⟩, hlisted⟩ := views_agree arises_looped hidle hbefore.1 hplan
  exact ⟨⟨result, hprobed, Except.ok.inj (hprobed.degree.symm.trans hthree)⟩, hlisted⟩

end Arcbase
