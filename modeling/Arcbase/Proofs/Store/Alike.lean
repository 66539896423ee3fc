import Arcbase.Proofs.Store.Links
import Arcbase.Store.Snapshot
set_option autoImplicit false

/-!
# Graphs that cannot be told apart

Two graphs are alike if they have the same vertices and the same links.  Their cells and
codes may differ, but what is read of a vertex or of the arcs around it is the same in both.
-/

namespace Arcbase

/-- The filters of a probe under any labels come to the same, or fail alike. -/
theorem ofProbe_cases (l l' : Labels) (p : Probe) :
    (∃ e, ArcFilter.ofProbe l p = .error e ∧ ArcFilter.ofProbe l' p = .error e) ∨
      ∃ f f', ArcFilter.ofProbe l p = .ok f ∧ ArcFilter.ofProbe l' p = .ok f' := by
  unfold ArcFilter.ofProbe
  cases p.value.fault? with
  | some fault => exact .inl ⟨_, rfl, rfl⟩
  | none =>
    dsimp only
    split
    next => exact .inr ⟨_, _, rfl, rfl⟩
    next => exact .inl ⟨_, rfl, rfl⟩
    next label _ _ =>
      cases l.relationships.lookup? label <;> cases l'.relationships.lookup? label <;>
        exact .inr ⟨_, _, rfl, rfl⟩

namespace VertexData

variable {l : Labels} {p : Probe} {f : ArcFilter} (hf : ArcFilter.ofProbe l p = .ok f)
  (d : VertexData) (direction : Direction)
include hf

/-- The arcs around a vertex that a probe selects, counted on both sides. -/
theorem length_matchingArcs : (d.matchingArcs f direction).length =
    (if direction.includesOut then d.out.entries.countP fun e => true && p.selects l e.2 else 0) +
      if direction.includesIn then d.inbound.entries.countP fun e => true && p.selects l e.2
      else 0 := by
  have hside : ∀ i : ArcIndex,
      (i.matching f).length = i.entries.countP fun e => true && p.selects l e.2 := by
    intro i
    rw [ArcIndex.matching, ← List.countP_eq_length_filter]
    exact List.countP_congr fun e _ => by simp only [test_of_ofProbe hf e.2, Bool.true_and]
  rw [matchingArcs, List.length_append, List.length_map, List.length_map]
  split <;> split <;> simp only [hside, List.length_nil]

/-- Those toward one neighbor. -/
theorem length_arcsBetween (n : VertexKey) : (d.arcsBetween n f direction).length =
    (if direction.includesOut then
        d.out.entries.countP fun e => decide (e.1 = n) && p.selects l e.2 else 0) +
      if direction.includesIn then
        d.inbound.entries.countP fun e => decide (e.1 = n) && p.selects l e.2 else 0 := by
  have hside : ∀ i : ArcIndex, ((i.arcsTo n).filter f.test).length =
      i.entries.countP fun e => decide (e.1 = n) && p.selects l e.2 := by
    intro i
    rw [← List.countP_eq_length_filter, ArcIndex.arcsTo_eq_filter_entries, List.countP_map,
      List.countP_filter]
    exact List.countP_congr fun e _ => by
      rw [Function.comp_apply, test_of_ofProbe hf, Bool.and_comm]
  rw [arcsBetween, List.filter_append, List.length_append]
  split <;> split <;> simp only [hside, List.filter_nil, List.length_nil]

end VertexData

/-- Toward one neighbor there is one arc at most of a relationship and a kind. -/
theorem ArcIndex.head?_filter {i : ArcIndex} (hi : i.Valid) {l : Labels} {p : Probe} {f : ArcFilter}
    (hf : ArcFilter.ofProbe l p = .ok f) {label : String} {kind : ArcKind}
    (hlabel : p.relationship = some label) (hkind : p.kind = some kind) {n : VertexKey}
    {a : StoredArc} :
    ((i.arcsTo n).filter f.test).head? = some a ↔ (n, a) ∈ i.entries ∧ p.selects l a = true := by
  have hslot : ∀ b, p.selects l b = true →
      l.relationships.lookup? label = some b.relationship ∧ kind = b.kind := by
    intro b hb
    simp only [Probe.selects, hlabel, hkind, Bool.and_eq_true, Option.all_some, beq_iff_eq] at hb
    exact hb.1
  have hsame : ∀ b, b ∈ (i.arcsTo n).filter f.test ↔ (n, b) ∈ i.entries ∧ p.selects l b = true := by
    intro b
    rw [List.mem_filter, mem_entries_iff, test_of_ofProbe hf]
  rw [← hsame]
  refine ⟨List.mem_of_head?, fun ha => ?_⟩
  cases hhead : ((i.arcsTo n).filter f.test).head? with
  | none =>
    rw [List.head?_eq_none_iff] at hhead
    rw [hhead] at ha
    cases ha
  | some b =>
    obtain ⟨hbm, hb⟩ := (hsame b).1 (List.mem_of_head? hhead)
    obtain ⟨ham, ha⟩ := (hsame a).1 ha
    obtain ⟨hcodeb, hkindb⟩ := hslot b hb
    obtain ⟨hcodea, hkinda⟩ := hslot a ha
    rw [mem_entries_iff, mem_arcsTo_iff hi] at hbm ham
    rw [← Option.some.inj (hcodea.symm.trans hcodeb), hkindb.symm.trans hkinda] at hbm
    exact hbm.symm.trans ham

namespace Store

/-- The attributes under an identifier. -/
def vertex? (s : Store) (id : String) : Option VertexSnapshot := (s.lookup id).map s.vertexSnapshot

/-- The same vertices, and the same arcs under their names. -/
structure Alike (s r : Store) : Prop where
  vertices : ∀ id, s.vertex? id = r.vertex? id
  links : s.links.Perm r.links

/-- A graph in which every arc has its label, and the two sides of every arc agree. -/
structure Legible (s : Store) : Prop where
  sound : s.Sound .equal
  named : s.Named

namespace Legible

variable {s : Store} {c : CellId} {n : VertexKey} {p : Probe} {f : ArcFilter} {label : String}
  {kind : ArcKind} {v : ArcValue} (hs : s.Legible) (hc : s.Live c) (hf : s.filterOf p = .ok f)
  (hlabel : p.relationship = some label) (hkind : p.kind = some kind)
include hs hc hf hlabel hkind

/-- The value that is read toward a terminal is that of a link. -/
theorem value_out_iff : ((s.data c).arcsBetween n f .out).head?.map (·.value) = some v ↔
    ∃ x, ⟨s.keyOf c, n, x⟩ ∈ s.links ∧ p.accepts x = true ∧ x.value = v := by
  have hbetween : (s.data c).arcsBetween n f .out = ((s.data c).out.arcsTo n).filter f.test :=
    congrArg (List.filter f.test) (List.append_nil _)
  simp only [hbetween, Option.map_eq_some_iff, mem_links_iff_out hs.sound hc,
    ArcIndex.head?_filter (hs.sound.paired.valid c hc).1 hf hlabel hkind]
  constructor
  · rintro ⟨a, ⟨ha, hselects⟩, rfl⟩
    exact ⟨_, ⟨a, ha, rfl⟩, selects_out hs.sound hs.named hc p ha ▸ hselects, rfl⟩
  · rintro ⟨_, ⟨a, ha, rfl⟩, haccepts, rfl⟩
    exact ⟨a, ⟨ha, (selects_out hs.sound hs.named hc p ha).trans haccepts⟩, rfl⟩

theorem value_inward_iff : ((s.data c).arcsBetween n f .inward).head?.map (·.value) = some v ↔
    ∃ x, (⟨n, s.keyOf c, x⟩ ∈ s.links ∧ x.forwardOnly = false) ∧ p.accepts x = true ∧
      x.value = v := by
  have hbetween : (s.data c).arcsBetween n f .inward =
      ((s.data c).inbound.arcsTo n).filter f.test := rfl
  simp only [hbetween, Option.map_eq_some_iff, mem_links_iff_inbound hs.sound hc,
    ArcIndex.head?_filter (hs.sound.paired.valid c hc).2 hf hlabel hkind]
  constructor
  · rintro ⟨a, ⟨ha, hselects⟩, rfl⟩
    exact ⟨_, ⟨a, ha, rfl⟩, selects_inbound hs.sound hs.named hc p ha ▸ hselects, rfl⟩
  · rintro ⟨_, ⟨a, ha, rfl⟩, haccepts, rfl⟩
    exact ⟨a, ⟨ha, (selects_inbound hs.sound hs.named hc p ha).trans haccepts⟩, rfl⟩

end Legible

namespace Alike

variable {s r : Store} {id : String} {c c' : CellId}

theorem lookup_eq_none (h : Alike s r) (hc : s.lookup id = none) : r.lookup id = none := by
  have hsame := h.vertices id
  rw [vertex?, hc] at hsame
  exact Option.map_eq_none_iff.1 hsame.symm

theorem exists_lookup (h : Alike s r) (hc : s.lookup id = some c) :
    ∃ c', r.lookup id = some c' ∧ r.vertexSnapshot c' = s.vertexSnapshot c := by
  have hsame := h.vertices id
  rw [vertex?, hc] at hsame
  exact Option.map_eq_some_iff.1 hsame.symm

theorem order_eq (h : Alike s r) (hs : s.Placed) (hr : r.Placed) : s.order = r.order := by
  have hlength : ∀ s : Store, s.order = (s.registered.map fun c => (s.cell c).id).length := by
    intro s
    rw [List.length_map]
    exact (List.length_map _).symm
  have hnodup : ∀ {s : Store}, s.Placed → (s.registered.map fun c => (s.cell c).id).Nodup := by
    intro s hs
    refine (nodup_registered hs).map_on fun c hc c' hc' he => ?_
    exact hs.eq_of_id ((mem_registered_iff hs).1 hc) ((mem_registered_iff hs).1 hc') he
  have hmem : ∀ {s : Store}, s.Placed → ∀ id,
      id ∈ (s.registered.map fun c => (s.cell c).id) ↔ (s.vertex? id).isSome := by
    intro s hp id
    rw [vertex?, Option.isSome_map, List.mem_map, Option.isSome_iff_exists]
    refine exists_congr fun c => ⟨?_, fun hc => ?_⟩
    · rintro ⟨hc, rfl⟩
      exact hp.lookup_of_live ((mem_registered_iff hp).1 hc)
    · exact ⟨(mem_registered_iff hp).2 (hp.of_lookup hc).1, (hp.of_lookup hc).2⟩
  rw [hlength, hlength]
  exact ((List.perm_ext_iff_of_nodup (hnodup hs) (hnodup hr)).2 fun id => by
    rw [hmem hs, hmem hr, h.vertices]).length_eq

variable (h : Alike s r) (hs : s.Legible) (hr : r.Legible)
include h hs hr

theorem size_eq : s.size = r.size := by
  rw [← length_links hs.sound, ← length_links hr.sound, h.links.length_eq]

/-! ## Around a vertex -/

section Vertex

variable (hc : s.lookup id = some c) (hc' : r.lookup id = some c')
include hc hc'

omit h in
theorem keyOf_eq : r.keyOf c' = s.keyOf c :=
  (hr.sound.placed.keyOf_of_lookup hc').trans (hs.sound.placed.keyOf_of_lookup hc).symm

theorem countP_out_eq (p : Probe) (keep : VertexKey → Bool) :
    (s.data c).out.entries.countP (fun e => keep e.1 && p.selects s.labels e.2) =
      (r.data c').out.entries.countP fun e => keep e.1 && p.selects r.labels e.2 := by
  rw [countP_out hs.sound hs.named (hs.sound.placed.of_lookup hc).1,
    countP_out hr.sound hr.named (hr.sound.placed.of_lookup hc').1,
    h.links.countP_eq, keyOf_eq hs hr hc hc']

theorem countP_inbound_eq (p : Probe) (keep : VertexKey → Bool) :
    (s.data c).inbound.entries.countP (fun e => keep e.1 && p.selects s.labels e.2) =
      (r.data c').inbound.entries.countP fun e => keep e.1 && p.selects r.labels e.2 := by
  rw [countP_inbound hs.sound hs.named (hs.sound.placed.of_lookup hc).1,
    countP_inbound hr.sound hr.named (hr.sound.placed.of_lookup hc').1,
    h.links.countP_eq, keyOf_eq hs hr hc hc']

theorem outdegree_eq : (s.data c).outdegree = (r.data c').outdegree := by
  have hlength : ∀ {s : Store} {c : CellId}, s.Legible → s.Live c →
      (s.data c).outdegree =
        (s.data c).out.entries.countP fun e => true && Probe.any.selects s.labels e.2 := by
    intro s c hs hc
    rw [VertexData.outdegree, ← ArcIndex.length_entries (hs.sound.paired.valid c hc).1]
    exact (List.countP_eq_length.2 fun _ _ => rfl).symm
  rw [hlength hs (hs.sound.placed.of_lookup hc).1, hlength hr (hr.sound.placed.of_lookup hc').1]
  exact h.countP_out_eq hs hr hc hc' .any fun _ => true

theorem indegree_eq : (s.data c).indegree = (r.data c').indegree := by
  have hlength : ∀ {s : Store} {c : CellId}, s.Legible → s.Live c →
      (s.data c).inbound.size =
        (s.data c).inbound.entries.countP fun e => true && Probe.any.selects s.labels e.2 := by
    intro s c hs hc
    rw [← ArcIndex.length_entries (hs.sound.paired.valid c hc).2]
    exact (List.countP_eq_length.2 fun _ _ => rfl).symm
  have hlive := (hs.sound.placed.of_lookup hc).1
  have hlive' := (hr.sound.placed.of_lookup hc').1
  rw [VertexData.indegree, VertexData.indegree, hlength hs hlive, hlength hr hlive',
    forwardOnlyIn_eq_countP hs.sound hlive, forwardOnlyIn_eq_countP hr.sound hlive',
    keyOf_eq hs hr hc hc', h.links.countP_eq]
  rw [h.countP_inbound_eq hs hr hc hc' .any fun _ => true]

theorem info_eq : s.info c = r.info c' := by
  have hsame := h.vertices id
  rw [vertex?, vertex?, hc, hc', Option.map_some, Option.map_some, Option.some.injEq] at hsame
  obtain ⟨hid, htype, hmanifestation, hcreated, hmodified, hexpires, hproperties, hvector⟩ :=
    VertexSnapshot.mk.inj hsame
  simp only [info]
  rw [VertexInfo.mk.injEq]
  exact ⟨hid, (keyOf_eq hs hr hc hc').symm, htype, hmanifestation, h.indegree_eq hs hr hc hc',
    h.outdegree_eq hs hr hc hc', hcreated, hmodified, hexpires, hproperties, hvector⟩

section Probes

variable {p : Probe} {f f' : ArcFilter} (hf : s.filterOf p = .ok f) (hf' : r.filterOf p = .ok f')
include hf hf'

theorem length_matchingArcs_eq (direction : Direction) :
    ((s.data c).matchingArcs f direction).length =
      ((r.data c').matchingArcs f' direction).length := by
  rw [VertexData.length_matchingArcs hf, VertexData.length_matchingArcs hf',
    h.countP_out_eq hs hr hc hc' p fun _ => true, h.countP_inbound_eq hs hr hc hc' p fun _ => true]

theorem hasMatchingArc_eq (direction : Direction) (keys : Option (List VertexKey)) :
    (s.data c).hasMatchingArc f direction keys = (r.data c').hasMatchingArc f' direction keys := by
  have hempty : ∀ {α β : Type} {l : List α} {l' : List β}, l.length = l'.length →
      l.isEmpty = l'.isEmpty := by
    intro α β l l' hlength
    cases l <;> cases l' <;> simp_all
  cases keys with
  | none =>
    exact congrArg not (hempty (h.length_matchingArcs_eq hs hr hc hc' hf hf' direction))
  | some keys =>
    refine congrArg keys.any (funext fun n => congrArg not (hempty ?_))
    rw [VertexData.length_arcsBetween hf, VertexData.length_arcsBetween hf',
      h.countP_out_eq hs hr hc hc' p fun k => decide (k = n),
      h.countP_inbound_eq hs hr hc hc' p fun k => decide (k = n)]

theorem value_eq {label : String} {kind : ArcKind} (hlabel : p.relationship = some label)
    (hkind : p.kind = some kind) {direction : Direction} (hdirection : direction ≠ .any)
    (n : VertexKey) : ((s.data c).arcsBetween n f direction).head?.map (·.value) =
      ((r.data c').arcsBetween n f' direction).head?.map (·.value) := by
  have hlive := (hs.sound.placed.of_lookup hc).1
  have hlive' := (hr.sound.placed.of_lookup hc').1
  refine Option.ext fun v => ?_
  cases direction with
  | any => exact absurd rfl hdirection
  | out =>
    rw [hs.value_out_iff hlive hf hlabel hkind, hr.value_out_iff hlive' hf' hlabel hkind,
      keyOf_eq hs hr hc hc']
    simp only [h.links.mem_iff]
  | inward =>
    rw [hs.value_inward_iff hlive hf hlabel hkind, hr.value_inward_iff hlive' hf' hlabel hkind,
      keyOf_eq hs hr hc hc']
    simp only [h.links.mem_iff]

end Probes

end Vertex

end Alike

end Store

end Arcbase
