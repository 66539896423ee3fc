import Arcbase.Proofs.Query.Paths
import Arcbase.Proofs.Scene.Arcs
set_option autoImplicit false

/-!
# The arcs of a graph under their names

Two graphs may give one relationship different codes.  A link is an arc between two
vertices that has the label in place of the code; what is counted around a vertex is
counted among the links of its graph (`countP_out`, `countP_inbound`).
-/

namespace Arcbase

/-- An arc with the label of its relationship in place of the code. -/
structure NamedArc where
  relationship : String
  kind : ArcKind
  value : ArcValue
  forwardOnly : Bool
  deriving DecidableEq

def StoredArc.named (a : StoredArc) (l : Labels) : NamedArc :=
  { relationship := l.relationshipLabel a.relationship
    kind := a.kind
    value := a.value
    forwardOnly := a.forwardOnly }

/-- A named arc with the keys of its ends. -/
structure Link where
  initial : VertexKey
  terminal : VertexKey
  arc : NamedArc
  deriving DecidableEq

/-- Whether a probe accepts an arc by its relationship, kind and number. -/
def Probe.accepts (p : Probe) (a : NamedArc) : Bool :=
  p.relationship.all (· == a.relationship) && p.kind.all (· == a.kind) &&
    p.value.test a.value.toNumber

/-! ## Names and codes -/

section Names

variable {l : Labels} {a b : StoredArc} {label : String}

theorem StoredArc.relationship_named
    (h : l.relationships.decode? a.relationship = some label) :
    (a.named l).relationship = label := by
  rw [named, Labels.relationshipLabel, h]
  rfl

theorem StoredArc.eq_of_named (hl : l.relationships.Valid)
    (ha : ∃ label, l.relationships.decode? a.relationship = some label)
    (hb : ∃ label, l.relationships.decode? b.relationship = some label)
    (h : a.named l = b.named l) : a = b := by
  obtain ⟨label, hlabel⟩ := ha
  obtain ⟨label', hlabel'⟩ := hb
  obtain ⟨hrelationship, hkind, hvalue, hforward⟩ := NamedArc.mk.inj h
  have hsame : label = label' :=
    (relationship_named hlabel).symm.trans (hrelationship.trans (relationship_named hlabel'))
  cases a
  cases b
  exact StoredArc.mk.injEq .. ▸ ⟨hl.eq_of_decode? hlabel (hsame ▸ hlabel'), hkind, hvalue, hforward⟩

/-- A probe accepts what it selects under the codes. -/
theorem Probe.selects_eq_accepts (hl : l.relationships.Valid) (p : Probe)
    (ha : ∃ label, l.relationships.decode? a.relationship = some label) :
    p.selects l a = p.accepts (a.named l) := by
  obtain ⟨label, hlabel⟩ := ha
  have hrelationship : ∀ wanted, (l.relationships.lookup? wanted == some a.relationship) =
      (wanted == (a.named l).relationship) := by
    intro wanted
    rw [StoredArc.relationship_named hlabel, Bool.eq_iff_iff, beq_iff_eq, beq_iff_eq,
      hl wanted a.relationship, hlabel, Option.some.injEq, eq_comm]
  simp only [selects, accepts, hrelationship]
  rfl

end Names

namespace Store

variable {agree : Agreement} {s : Store} {c : CellId} {n : VertexKey}

/-! ## Counting around a vertex -/

/-- All arcs under their names. -/
def links (s : Store) : List Link :=
  s.arcs.map fun p => ⟨p.initial, p.terminal, p.arc.named s.labels⟩

theorem length_links (hs : s.Sound agree) : s.links.length = s.size := by
  rw [links, List.length_map, length_arcs hs]

theorem nodup_links (hs : s.Sound agree) (hn : s.Named) : s.links.Nodup := by
  refine (nodup_arcs hs).map_on fun p hp q hq he => ?_
  obtain ⟨hinitial, hterminal, harc⟩ := Link.mk.inj he
  have hsame := StoredArc.eq_of_named hn.valid (hn.arcs p hp) (hn.arcs q hq) harc
  cases p
  cases q
  exact PlacedArc.mk.injEq .. ▸ ⟨hinitial, hterminal, hsame⟩

/-- The entries of an outbound index are the arcs that begin at the vertex. -/
theorem perm_out (hs : s.Sound agree) (hc : s.Live c) :
    (s.data c).out.entries.Perm
      ((s.arcs.filter fun p => p.initial = s.keyOf c).map fun p => (p.terminal, p.arc)) := by
  refine (List.perm_ext_iff_of_nodup (ArcIndex.nodup_entries (hs.paired.valid c hc).1)
    (((nodup_arcs hs).filter _).map_on fun p hp q hq he => ?_)).2 fun (n, a) => ?_
  · obtain ⟨hterminal, harc⟩ := Prod.mk.inj he
    have hinitial : p.initial = q.initial := by
      rw [List.mem_filter, decide_eq_true_eq] at hp hq
      exact hp.2.trans hq.2.symm
    cases p
    cases q
    exact PlacedArc.mk.injEq .. ▸ ⟨hinitial, hterminal, harc⟩
  · rw [ArcIndex.mem_entries_iff]
    simp only [List.mem_map, List.mem_filter, decide_eq_true_eq, Prod.mk.injEq]
    constructor
    · intro ha
      exact ⟨⟨s.keyOf c, n, a⟩, ⟨(mem_arcs_iff hs.placed).2 ⟨c, hc, rfl, ha⟩, rfl⟩, rfl, rfl⟩
    · rintro ⟨p, ⟨hp, hinitial⟩, rfl, rfl⟩
      obtain ⟨i, hi, hk, ha⟩ := (mem_arcs_iff hs.placed).1 hp
      obtain rfl := hs.placed.eq_of_key hi hc (hk.trans hinitial)
      exact ha

/-- The entries of an inbound index are the regular arcs that end at the vertex. -/
theorem perm_inbound (hs : s.Sound .equal) (hc : s.Live c) :
    (s.data c).inbound.entries.Perm
      ((s.arcs.filter fun p => p.terminal = s.keyOf c ∧ p.arc.forwardOnly = false).map
        fun p => (p.initial, p.arc)) := by
  refine (List.perm_ext_iff_of_nodup (ArcIndex.nodup_entries (hs.paired.valid c hc).2)
    (((nodup_arcs hs).filter _).map_on fun p hp q hq he => ?_)).2 fun (n, a) => ?_
  · obtain ⟨hinitial, harc⟩ := Prod.mk.inj he
    have hterminal : p.terminal = q.terminal := by
      rw [List.mem_filter, decide_eq_true_eq] at hp hq
      exact hp.2.1.trans hq.2.1.symm
    cases p
    cases q
    exact PlacedArc.mk.injEq .. ▸ ⟨hinitial, hterminal, harc⟩
  · rw [ArcIndex.mem_entries_iff]
    simp only [List.mem_map, List.mem_filter, decide_eq_true_eq, Prod.mk.injEq]
    constructor
    · intro ha
      obtain ⟨i, hi, rfl⟩ := hs.paired.known c hc n (.inr (List.ne_nil_of_mem ha))
      obtain ⟨hout, hforward⟩ := (hs.paired.mem_inbound_iff hi hc).2 ha
      exact ⟨⟨s.keyOf i, s.keyOf c, a⟩,
        ⟨(mem_arcs_iff hs.placed).2 ⟨i, hi, rfl, hout⟩, rfl, hforward⟩, rfl, rfl⟩
    · rintro ⟨p, ⟨hp, hterminal, hforward⟩, rfl, rfl⟩
      obtain ⟨i, hi, hk, ha⟩ := (mem_arcs_iff hs.placed).1 hp
      rw [← hk]
      exact (hs.paired.mem_inbound_iff hi hc).1 ⟨hterminal ▸ ha, hforward⟩

theorem selects_out (hs : s.Sound agree) (hn : s.Named) (hc : s.Live c) (p : Probe) {a : StoredArc}
    (ha : (n, a) ∈ (s.data c).out.entries) :
    p.selects s.labels a = p.accepts (a.named s.labels) := by
  obtain ⟨q, hq, he⟩ := List.mem_map.1 ((perm_out hs hc).mem_iff.1 ha)
  obtain ⟨_, rfl⟩ := Prod.mk.inj he
  exact p.selects_eq_accepts hn.valid (hn.arcs q (List.mem_of_mem_filter hq))

theorem selects_inbound (hs : s.Sound .equal) (hn : s.Named) (hc : s.Live c) (p : Probe)
    {a : StoredArc} (ha : (n, a) ∈ (s.data c).inbound.entries) :
    p.selects s.labels a = p.accepts (a.named s.labels) := by
  obtain ⟨q, hq, he⟩ := List.mem_map.1 ((perm_inbound hs hc).mem_iff.1 ha)
  obtain ⟨_, rfl⟩ := Prod.mk.inj he
  exact p.selects_eq_accepts hn.valid (hn.arcs q (List.mem_of_mem_filter hq))

theorem mem_links_iff_out (hs : s.Sound agree) (hc : s.Live c) {x : NamedArc} :
    ⟨s.keyOf c, n, x⟩ ∈ s.links ↔
      ∃ a, (n, a) ∈ (s.data c).out.entries ∧ a.named s.labels = x := by
  simp only [links, List.mem_map, Link.mk.injEq, (perm_out hs hc).mem_iff, List.mem_filter,
    decide_eq_true_eq, Prod.mk.injEq]
  constructor
  · rintro ⟨p, hp, hinitial, rfl, rfl⟩
    exact ⟨p.arc, ⟨p, ⟨hp, hinitial⟩, rfl, rfl⟩, rfl⟩
  · rintro ⟨_, ⟨p, ⟨hp, hinitial⟩, rfl, rfl⟩, rfl⟩
    exact ⟨p, hp, hinitial, rfl, rfl⟩

theorem mem_links_iff_inbound (hs : s.Sound .equal) (hc : s.Live c) {x : NamedArc} :
    ⟨n, s.keyOf c, x⟩ ∈ s.links ∧ x.forwardOnly = false ↔
      ∃ a, (n, a) ∈ (s.data c).inbound.entries ∧ a.named s.labels = x := by
  simp only [links, List.mem_map, Link.mk.injEq, (perm_inbound hs hc).mem_iff, List.mem_filter,
    decide_eq_true_eq, Prod.mk.injEq]
  constructor
  · rintro ⟨⟨p, hp, rfl, hterminal, rfl⟩, hforward⟩
    exact ⟨p.arc, ⟨p, ⟨hp, hterminal, hforward⟩, rfl, rfl⟩, rfl⟩
  · rintro ⟨_, ⟨p, ⟨hp, hterminal, hforward⟩, rfl, rfl⟩, rfl⟩
    exact ⟨⟨p, hp, rfl, hterminal, rfl⟩, hforward⟩

/-- What a probe selects of an outbound index, counted among the links. -/
theorem countP_out (hs : s.Sound agree) (hn : s.Named) (hc : s.Live c) (p : Probe)
    (keep : VertexKey → Bool) :
    (s.data c).out.entries.countP (fun e => keep e.1 && p.selects s.labels e.2) =
      s.links.countP fun q => decide (q.initial = s.keyOf c) &&
        (keep q.terminal && p.accepts q.arc) := by
  rw [(perm_out hs hc).countP_eq, List.countP_map, List.countP_filter, links, List.countP_map]
  refine List.countP_congr fun x hx => ?_
  simp only [Function.comp_apply, Probe.selects_eq_accepts hn.valid p (hn.arcs x hx),
    Bool.and_comm, Bool.and_eq_true]

/-- What a probe selects of an inbound index, counted among the links. -/
theorem countP_inbound (hs : s.Sound .equal) (hn : s.Named) (hc : s.Live c) (p : Probe)
    (keep : VertexKey → Bool) :
    (s.data c).inbound.entries.countP (fun e => keep e.1 && p.selects s.labels e.2) =
      s.links.countP fun q => decide (q.terminal = s.keyOf c ∧ q.arc.forwardOnly = false) &&
        (keep q.initial && p.accepts q.arc) := by
  rw [(perm_inbound hs hc).countP_eq, List.countP_map, List.countP_filter, links, List.countP_map]
  refine List.countP_congr fun x hx => ?_
  simp only [Function.comp_apply, Probe.selects_eq_accepts hn.valid p (hn.arcs x hx),
    Bool.and_comm, Bool.and_eq_true]
  rfl

/-- The forward-only arcs toward a vertex are counted there. -/
theorem forwardOnlyIn_eq_countP (hs : s.Sound agree) (hc : s.Live c) :
    (s.data c).forwardOnlyIn =
      s.links.countP fun q => q.terminal = s.keyOf c ∧ q.arc.forwardOnly = true := by
  rw [hs.paired.counted c hc, links, List.countP_map, arcs, List.countP_flatMap]
  refine congrArg List.sum (List.map_congr_left fun i _ => ?_)
  rw [forwardOnlyTo, ArcIndex.arcsTo_eq_filter_entries, List.countP_map, List.countP_filter,
    Function.comp_apply, arcsFrom, List.countP_map]
  refine List.countP_congr fun x _ => ?_
  simp [StoredArc.named, and_comm]

end Store

end Arcbase
