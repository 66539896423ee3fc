import Arcbase.Proofs.Action.Plain
import Arcbase.Proofs.Snapshot.Filled
import Arcbase.Proofs.Store.Alike
set_option autoImplicit false

/-!
# What a snapshot lists

The snapshot of a graph lists its vertices and its links, each of them once and in an order
that does not depend on cells and codes (`mem_vertices_toSnapshot`, `mem_arcs_toSnapshot`).
So graphs that are alike have the same snapshot (`Alike.toSnapshot_eq`), and a graph that has
been restored from the snapshot of another one is like that one (`Filled.alike`).
-/

namespace Arcbase

/-- The link that an arc of a snapshot stands for. -/
def ArcSnapshot.link (a : ArcSnapshot) : Link :=
  { initial := .of a.initial
    terminal := .of a.terminal
    arc :=
      { relationship := a.relationship
        kind := a.kind
        value := a.value
        forwardOnly := a.forwardOnly } }

theorem isLE_total {α : Type} (cmp : α → α → Ordering) [Std.OrientedCmp cmp] (a b : α) :
    ((cmp a b).isLE || (cmp b a).isLE) = true := by
  have hswap : cmp b a = (cmp a b).swap := Std.OrientedCmp.eq_swap
  rw [hswap]
  cases cmp a b <;> rfl

namespace ArcSnapshot

/-- The comparison by which the arcs of a snapshot are ordered. -/
def order : ArcSnapshot → ArcSnapshot → Ordering :=
  compareLex (compareOn (·.initial)) <| compareLex (compareOn (·.terminal)) <|
    compareLex (compareOn (·.relationship)) (compareOn (·.kind.rank))

theorem before_eq (a b : ArcSnapshot) : a.before b = (a.order b).isLE := rfl

variable {a b c : ArcSnapshot}

instance : Std.TransCmp order := by
  unfold order
  infer_instance

/-- Arcs of the same rank are in the same slot. -/
theorem slot_eq_of_order (h : a.order b = .eq) : a.slot = b.slot := by
  simp only [order, compareLex, compareOn, Ordering.then_eq_eq, Std.compare_eq_iff_eq] at h
  obtain ⟨hinitial, hterminal, hrelationship, hrank⟩ := h
  have hall : ∀ k : ArcKind, k ∈ ArcKind.all := fun k => by cases k <;> decide
  rw [slot, slot, hinitial, hterminal, hrelationship, (List.idxOf_inj (hall a.kind)).1 hrank]

theorem before_trans (hab : a.before b = true) (hbc : b.before c = true) : a.before c = true := by
  rw [before_eq] at hab hbc ⊢
  exact Std.TransCmp.isLE_trans hab hbc

theorem before_total (a b : ArcSnapshot) : (a.before b || b.before a) = true := by
  rw [before_eq, before_eq]
  exact isLE_total order a b

theorem slot_eq_of_before (hab : a.before b = true) (hba : b.before a = true) :
    a.slot = b.slot := by
  rw [before_eq] at hab hba
  exact slot_eq_of_order (Std.OrientedCmp.isLE_antisymm hab hba)

end ArcSnapshot

namespace Store

variable {agree agree' : Agreement} {s r : Store} {id : String} {v : VertexSnapshot}
  {a b : ArcSnapshot}

theorem contains_eq_isSome (s : Store) (id : String) : s.contains id = (s.vertex? id).isSome := by
  rw [vertex?, Option.isSome_map, contains]

theorem Alike.contains_eq (h : Alike s r) (id : String) : s.contains id = r.contains id := by
  rw [contains_eq_isSome, contains_eq_isSome, h.vertices]

theorem eq_of_link (hp : s.Placed) (hai : s.contains a.initial = true)
    (hat : s.contains a.terminal = true) (hbi : s.contains b.initial = true)
    (hbt : s.contains b.terminal = true) (h : a.link = b.link) : a = b := by
  obtain ⟨hinitial, hterminal, harc⟩ := Link.mk.inj h
  obtain ⟨hrelationship, hkind, hvalue, hforward⟩ := NamedArc.mk.inj harc
  have hi := hp.eq_of_contains hai hbi hinitial
  have ht := hp.eq_of_contains hat hbt hterminal
  cases a
  cases b
  exact ArcSnapshot.mk.injEq .. ▸ ⟨hi, hrelationship, hkind, hvalue, hforward, ht⟩

/-! ## Vertices -/

theorem mem_ordered_iff (hp : s.Placed) {c : CellId} : c ∈ s.ordered ↔ s.Live c := by
  rw [ordered, List.mem_mergeSort, mem_registered_iff hp]

theorem mem_vertices_toSnapshot (hp : s.Placed) :
    v ∈ s.toSnapshot.vertices ↔ s.vertex? v.id = some v := by
  simp only [toSnapshot, List.mem_map, mem_ordered_iff hp, vertex?, Option.map_eq_some_iff]
  constructor
  · rintro ⟨c, hc, rfl⟩
    exact ⟨c, hp.lookup_of_live hc, rfl⟩
  · rintro ⟨c, hc, hv⟩
    exact ⟨c, (hp.of_lookup hc).1, hv⟩

theorem nodup_vertices_toSnapshot (hp : s.Placed) : s.toSnapshot.vertices.Nodup := by
  have hnodup : s.ordered.Nodup := (List.mergeSort_perm _ _).nodup_iff.2 (nodup_registered hp)
  refine hnodup.map_on fun c hc c' hc' he => ?_
  exact hp.eq_of_id ((mem_ordered_iff hp).1 hc) ((mem_ordered_iff hp).1 hc')
    (congrArg VertexSnapshot.id he)

theorem pairwise_vertices_toSnapshot (s : Store) :
    s.toSnapshot.vertices.Pairwise fun v w => (compare v.id w.id).isLE = true := by
  refine List.pairwise_map.2 (List.pairwise_mergeSort (fun a b c hab hbc => ?_) (fun a b => ?_) _)
  · exact Std.TransCmp.isLE_trans hab hbc
  · exact isLE_total compare _ _

/-! ## Arcs -/

theorem contains_of_live (hp : s.Placed) {c : CellId} (hc : s.Live c) :
    s.contains (s.cell c).id = true :=
  Option.isSome_of_eq_some (hp.lookup_of_live hc)

/-- The ends of the arcs of a snapshot are in the graph. -/
theorem contains_of_mem_arcs_toSnapshot (hs : s.Sound agree) (ha : a ∈ s.toSnapshot.arcs) :
    s.contains a.initial = true ∧ s.contains a.terminal = true := by
  have hp := hs.placed
  rw [toSnapshot, List.mem_mergeSort, List.mem_flatMap] at ha
  obtain ⟨c, hc, ha⟩ := ha
  obtain ⟨⟨n, arc⟩, _, hfound⟩ := List.mem_filterMap.1 ha
  obtain ⟨t, ht, rfl⟩ := Option.map_eq_some_iff.1 hfound
  exact ⟨contains_of_live hp ((mem_ordered_iff hp).1 hc),
    contains_of_live hp (hp.live_of_lookup ht)⟩

/-- The arcs of a snapshot are the links. -/
theorem perm_links_toSnapshot (hs : s.Sound agree) :
    (s.toSnapshot.arcs.map ArcSnapshot.link).Perm s.links := by
  have hp := hs.placed
  have hfrom : ∀ c ∈ s.registered, (s.arcSnapshots c).map ArcSnapshot.link =
      (s.arcsFrom c).map fun p => ⟨p.initial, p.terminal, p.arc.named s.labels⟩ := by
    intro c hc
    have hlive := (mem_registered_iff hp).1 hc
    rw [arcSnapshots, arcsFrom, List.map_filterMap, List.map_map, ← List.filterMap_eq_map]
    refine List.filterMap_congr fun e he => ?_
    obtain ⟨n, arc⟩ := e
    obtain ⟨t, ht, rfl⟩ := hs.paired.known c hlive n
      (.inl (List.ne_nil_of_mem (ArcIndex.mem_entries_iff.1 he)))
    have hkey : s.lookupKey (s.keyOf t) = some t := hp.lookup_key ht
    have hi : s.keyOf c = .of (s.cell c).id := hp.keyed c hlive.1
    have ht' : s.keyOf t = .of (s.cell t).id := hp.keyed t ht.1
    simp only [hkey, Option.map_some, Function.comp_apply]
    rw [hi, ht']
    rfl
  have hperm : (s.ordered.flatMap s.arcSnapshots).Perm (s.registered.flatMap s.arcSnapshots) :=
    (List.mergeSort_perm _ _).flatMap_right _
  refine (((List.mergeSort_perm _ _).trans hperm).map _).trans (.of_eq ?_)
  rw [links, arcs, List.map_flatMap, List.map_flatMap]
  exact List.flatMap_congr hfrom

theorem nodup_arcs_toSnapshot (hs : s.Sound agree) (hn : s.Named) : s.toSnapshot.arcs.Nodup :=
  .of_map _ ((perm_links_toSnapshot hs).nodup_iff.2 (nodup_links hs hn))

theorem mem_arcs_toSnapshot (hs : s.Sound agree) : a ∈ s.toSnapshot.arcs ↔
    s.contains a.initial = true ∧ s.contains a.terminal = true ∧ a.link ∈ s.links := by
  constructor
  · intro ha
    obtain ⟨hi, ht⟩ := contains_of_mem_arcs_toSnapshot hs ha
    exact ⟨hi, ht, (perm_links_toSnapshot hs).mem_iff.1 (List.mem_map_of_mem ha)⟩
  · rintro ⟨hi, ht, hm⟩
    obtain ⟨b, hb, hlink⟩ := List.mem_map.1 ((perm_links_toSnapshot hs).mem_iff.2 hm)
    obtain ⟨hbi, hbt⟩ := contains_of_mem_arcs_toSnapshot hs hb
    exact eq_of_link hs.placed hbi hbt hi ht hlink ▸ hb

/-- An arc of a snapshot as it is stored at its initial. -/
theorem exists_stored_toSnapshot (hs : s.Sound agree) (hn : s.Named)
    (ha : a ∈ s.toSnapshot.arcs) : ∃ i t code,
    s.lookup a.initial = some i ∧ s.lookup a.terminal = some t ∧
      s.labels.relationships.decode? code = some a.relationship ∧
      s.arcAt? i t code a.kind = some (a.stored code) := by
  obtain ⟨hi, ht, hm⟩ := (mem_arcs_toSnapshot hs).1 ha
  obtain ⟨i, hi⟩ := Option.isSome_iff_exists.1 hi
  obtain ⟨t, ht⟩ := Option.isSome_iff_exists.1 ht
  have hp := hs.placed
  obtain ⟨hlive, _⟩ := hp.of_lookup hi
  rw [ArcSnapshot.link, ← hp.keyOf_of_lookup hi, ← hp.keyOf_of_lookup ht,
    mem_links_iff_out hs hlive] at hm
  obtain ⟨arc, harc, hnamed⟩ := hm
  rw [ArcIndex.mem_entries_iff] at harc
  obtain ⟨label, hlabel⟩ := hn.arcs ⟨s.keyOf i, s.keyOf t, arc⟩
    ((mem_arcs_iff hp).2 ⟨i, hlive, rfl, harc⟩)
  obtain ⟨hrelationship, hkind, hvalue, hforward⟩ := NamedArc.mk.inj hnamed
  have hsame : label = a.relationship :=
    (StoredArc.relationship_named hlabel).symm.trans hrelationship
  refine ⟨i, t, arc.relationship, hi, ht, hsame ▸ hlabel, ?_⟩
  have hstored : a.stored arc.relationship = arc := by
    rw [ArcSnapshot.stored, ← hkind, ← hvalue, ← hforward]
  rw [hstored, ← hkind]
  exact (ArcIndex.mem_arcsTo_iff (hs.paired.valid i hlive).1 _ _).1 harc

/-- A slot is listed once at most. -/
theorem distinct_toSnapshot (hs : s.Sound agree) (hn : s.Named) : s.toSnapshot.Distinct := by
  intro a ha b hb hslot
  obtain ⟨i, t, code, hi, ht, hcode, hstored⟩ := exists_stored_toSnapshot hs hn ha
  obtain ⟨i', t', code', hi', ht', hcode', hstored'⟩ := exists_stored_toSnapshot hs hn hb
  obtain ⟨hinitial, hterminal, hrelationship, hkind⟩ := ArcSlot.mk.inj hslot
  obtain rfl := Option.some.inj (hi.symm.trans ((congrArg s.lookup hinitial).trans hi'))
  obtain rfl := Option.some.inj (ht.symm.trans ((congrArg s.lookup hterminal).trans ht'))
  obtain rfl := hn.valid.eq_of_decode? hcode (hrelationship ▸ hcode')
  rw [← hkind, hstored] at hstored'
  obtain ⟨_, _, hvalue, hforward⟩ := StoredArc.mk.inj (Option.some.inj hstored')
  cases a
  cases b
  exact ArcSnapshot.mk.injEq .. ▸ ⟨hinitial, hrelationship, hkind, hvalue, hforward, hterminal⟩

theorem pairwise_arcs_toSnapshot (s : Store) :
    s.toSnapshot.arcs.Pairwise fun a b => a.before b = true := by
  have hsorted := @List.pairwise_mergeSort _ ArcSnapshot.before
    (fun _ _ _ hab hbc => ArcSnapshot.before_trans hab hbc) ArcSnapshot.before_total
  exact hsorted (s.ordered.flatMap s.arcSnapshots)

/-! ## The same snapshot -/

section Same

variable (h : Alike s r) (hs : s.Sound agree) (hr : r.Sound agree')
include h hs hr

theorem Alike.vertices_toSnapshot_eq : s.toSnapshot.vertices = r.toSnapshot.vertices := by
  have hp := hs.placed
  have hp' := hr.placed
  refine List.Perm.eq_of_pairwise (fun v w hv hw hvw hwv => ?_) (pairwise_vertices_toSnapshot s)
    (pairwise_vertices_toSnapshot r) ((List.perm_ext_iff_of_nodup (nodup_vertices_toSnapshot hp)
      (nodup_vertices_toSnapshot hp')).2 fun v => ?_)
  · rw [mem_vertices_toSnapshot hp] at hv
    rw [mem_vertices_toSnapshot hp', ← h.vertices] at hw
    have hid : v.id = w.id := Std.compare_eq_iff_eq.1 (Std.OrientedCmp.isLE_antisymm hvw hwv)
    rw [hid, hw] at hv
    exact (Option.some.inj hv).symm
  · rw [mem_vertices_toSnapshot hp, mem_vertices_toSnapshot hp', h.vertices]

variable (hn : s.Named) (hn' : r.Named)
include hn hn'

theorem Alike.arcs_toSnapshot_eq : s.toSnapshot.arcs = r.toSnapshot.arcs := by
  have hmem : ∀ a, a ∈ s.toSnapshot.arcs ↔ a ∈ r.toSnapshot.arcs := fun a => by
    rw [mem_arcs_toSnapshot hs, mem_arcs_toSnapshot hr, h.contains_eq, h.contains_eq,
      h.links.mem_iff]
  refine List.Perm.eq_of_pairwise (fun a b ha hb hab hba => ?_) (pairwise_arcs_toSnapshot s)
    (pairwise_arcs_toSnapshot r)
    ((List.perm_ext_iff_of_nodup (nodup_arcs_toSnapshot hs hn)
      (nodup_arcs_toSnapshot hr hn')).2 hmem)
  exact distinct_toSnapshot hs hn a ha b ((hmem b).2 hb) (ArcSnapshot.slot_eq_of_before hab hba)

/-- Graphs that are alike have the same snapshot. -/
theorem Alike.toSnapshot_eq (hname : s.config.name = r.config.name) :
    s.toSnapshot = r.toSnapshot := by
  have hsnapshot : ∀ a b : Snapshot, a.name = b.name → a.vertices = b.vertices →
      a.arcs = b.arcs → a = b := by
    rintro ⟨_, _, _⟩ ⟨_, _, _⟩ rfl rfl rfl
    rfl
  exact hsnapshot _ _ hname (h.vertices_toSnapshot_eq hs hr) (h.arcs_toSnapshot_eq hs hr hn hn')

end Same

end Store

/-! ## Restored graphs -/

open Store

variable {s r : Store} {snapshot : Snapshot}

/-- The links of a restored graph are the arcs of its snapshot. -/
theorem Filled.mem_links_iff (h : Filled snapshot r) (hr : r.Sound .slots)
    (hdistinct : snapshot.Distinct) {q : Link} :
    q ∈ r.links ↔ ∃ a ∈ snapshot.arcs, a.link = q := by
  have hp := hr.placed
  have hnamed : ∀ {a : ArcSnapshot} {code : LabelCode},
      r.labels.relationships.decode? code = some a.relationship →
        (a.stored code).named r.labels = a.link.arc := by
    intro a code hcode
    rw [StoredArc.named, Labels.relationshipLabel,
      show (a.stored code).relationship = code from rfl, hcode]
    rfl
  constructor
  · intro hq
    obtain ⟨p, hm, rfl⟩ := List.mem_map.1 hq
    obtain ⟨i, t, hi, ht, hik, htk, harc⟩ := exists_arcAt? hr hm
    obtain ⟨slot, a, b, hinitial, hterminal, hkind, hcode, ha, hb, hstored⟩ :=
      h.exists_slot hr hi ht harc
    obtain ⟨hbm, rfl⟩ := Snapshot.mem_of_last? hb
    refine ⟨b, hbm, ?_⟩
    rw [← hik, ← htk, hp.keyOf_of_lookup hinitial, hp.keyOf_of_lookup hterminal, ← hstored,
      hnamed hcode]
    rfl
  · rintro ⟨a, ha, rfl⟩
    obtain ⟨_, i, t, code, hinitial, hterminal, hcode⟩ := h.ends a ha
    have hout := h.out a.slot i t code hinitial hterminal hcode
    rw [hdistinct.last?_slot ha, Option.map_some] at hout
    have hm := arcAt?_mem_arcs hr (hp.of_lookup hinitial).1 hout
    refine List.mem_map.2 ⟨_, hm, ?_⟩
    rw [hnamed hcode, hp.keyOf_of_lookup hinitial, hp.keyOf_of_lookup hterminal]
    rfl

/-- A graph that is restored from the snapshot of another one is like that one. -/
theorem Filled.alike {agree : Agreement} (h : Filled s.toSnapshot r) (hs : s.Sound agree)
    (hn : s.Named) (hr : r.Sound .slots) (hn' : r.Named) : Alike s r := by
  have hp := hs.placed
  refine ⟨fun id => Option.ext fun v => ⟨fun hv => ?_, fun hv => ?_⟩,
    (List.perm_ext_iff_of_nodup (nodup_links hs hn) (nodup_links hr hn')).2 fun q => ?_⟩
  · obtain ⟨c, hc, rfl⟩ := Option.map_eq_some_iff.1 hv
    have hid : (s.vertexSnapshot c).id = id := (hp.of_lookup hc).2
    obtain ⟨c', hc', hsame⟩ := h.vertices _ ((mem_vertices_toSnapshot hp).2 (hid ▸ hv))
    exact Option.map_eq_some_iff.2 ⟨c', hid ▸ hc', hsame⟩
  · obtain ⟨c, hc, rfl⟩ := Option.map_eq_some_iff.1 hv
    have hid : (r.vertexSnapshot c).id = id := (hr.placed.of_lookup hc).2
    have hm := (mem_vertices_toSnapshot hp).1 (h.only id c hc)
    rwa [hid] at hm
  · rw [h.mem_links_iff hr (distinct_toSnapshot hs hn), ← (perm_links_toSnapshot hs).mem_iff,
      List.mem_map]

end Arcbase
