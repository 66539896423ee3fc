import Arcbase.Proofs.Scene.Arcs
set_option autoImplicit false

/-!
# Slots under their names

A slot is named by the identifiers of its ends, the label of its relationship and its kind.
What is in it is the same as long as only vertices without arcs come or go
(`SameArcs.sameSlots`), and new labels are added to the tables (`sameSlots_labels`).
-/

namespace Arcbase

/-- A slot under the names of its ends and of its relationship. -/
structure SlotName where
  initial : String
  relationship : String
  kind : ArcKind
  terminal : String
  deriving DecidableEq, Repr

namespace Store

variable {agree : Agreement} {s s' s'' : Store} {n : SlotName} {a : StoredArc} {i t : CellId}
  {code : LabelCode}

/-- The arc in a slot, as the initial has it. -/
def slot? (s : Store) (n : SlotName) : Option StoredArc := do
  let i ← s.lookup n.initial
  let t ← s.lookup n.terminal
  let code ← s.labels.relationships.lookup? n.relationship
  s.arcAt? i t code n.kind

/-- The regular arc in a slot, as the terminal has it. -/
def inwardSlot? (s : Store) (n : SlotName) : Option StoredArc := do
  let i ← s.lookup n.initial
  let t ← s.lookup n.terminal
  let code ← s.labels.relationships.lookup? n.relationship
  s.inwardAt? i t code n.kind

/-- The cells and the code that the names of a slot stand for. -/
structure Denotes (s : Store) (n : SlotName) (i t : CellId) (code : LabelCode) : Prop where
  initial : s.lookup n.initial = some i
  terminal : s.lookup n.terminal = some t
  code : s.labels.relationships.lookup? n.relationship = some code

theorem Denotes.slot? (h : s.Denotes n i t code) : s.slot? n = s.arcAt? i t code n.kind := by
  simp only [Store.slot?, h.initial, h.terminal, h.code, Option.bind_eq_bind, Option.bind_some]

theorem Denotes.inwardSlot? (h : s.Denotes n i t code) :
    s.inwardSlot? n = s.inwardAt? i t code n.kind := by
  simp only [Store.inwardSlot?, h.initial, h.terminal, h.code, Option.bind_eq_bind,
    Option.bind_some]

theorem denotes_of_slot? (h : s.slot? n = some a) : ∃ i t code, s.Denotes n i t code := by
  simp only [slot?, Option.bind_eq_bind, Option.bind_eq_some_iff] at h
  obtain ⟨i, hi, t, ht, code, hc, _⟩ := h
  exact ⟨i, t, code, hi, ht, hc⟩

theorem denotes_of_inwardSlot? (h : s.inwardSlot? n = some a) :
    ∃ i t code, s.Denotes n i t code := by
  simp only [inwardSlot?, Option.bind_eq_bind, Option.bind_eq_some_iff] at h
  obtain ⟨i, hi, t, ht, code, hc, _⟩ := h
  exact ⟨i, t, code, hi, ht, hc⟩

/-- Nothing is in a slot whose names stand for nothing. -/
theorem slot?_of_not_denotes (h : ¬ ∃ i t code, s.Denotes n i t code) : s.slot? n = none :=
  Option.eq_none_iff_forall_ne_some.2 fun _ ha => h (denotes_of_slot? ha)

theorem inwardSlot?_of_not_denotes (h : ¬ ∃ i t code, s.Denotes n i t code) :
    s.inwardSlot? n = none :=
  Option.eq_none_iff_forall_ne_some.2 fun _ ha => h (denotes_of_inwardSlot? ha)

/-- Two stores hold the same in a slot, on both sides. -/
def SameSlot (n : SlotName) (s s' : Store) : Prop :=
  s'.slot? n = s.slot? n ∧ s'.inwardSlot? n = s.inwardSlot? n

theorem SameSlot.trans (h : SameSlot n s s') (h' : SameSlot n s' s'') : SameSlot n s s'' :=
  ⟨h'.1.trans h.1, h'.2.trans h.2⟩

/-- Two stores hold the same in every slot. -/
def SameSlots (s s' : Store) : Prop := ∀ n, SameSlot n s s'

theorem SameSlots.refl (s : Store) : s.SameSlots s := fun _ => ⟨rfl, rfl⟩

theorem SameSlots.trans (h : s.SameSlots s') (h' : s'.SameSlots s'') : s.SameSlots s'' :=
  fun n => (h n).trans (h' n)

/-- What one store has in a slot the other one has too, both ways. -/
theorem sameSlots_of (hout : ∀ n a, s.slot? n = some a ↔ s'.slot? n = some a)
    (hin : ∀ n a, s.inwardSlot? n = some a ↔ s'.inwardSlot? n = some a) : s.SameSlots s' :=
  fun n => ⟨Option.ext fun a => (hout n a).symm, Option.ext fun a => (hin n a).symm⟩

/-! ## Vertices without arcs -/

/-- The vertices of two stores have the same arcs; those that are in one of them only have
none. -/
structure SameArcs (s s' : Store) : Prop where
  labels : s'.labels = s.labels
  id : ∀ c, s.Live c → s'.Live c → (s'.cell c).id = (s.cell c).id
  out : ∀ c, s.Live c → s'.Live c → (s'.data c).out = (s.data c).out
  inbound : ∀ c, s.Live c → s'.Live c → (s'.data c).inbound = (s.data c).inbound
  gone : ∀ c, s.Live c → ¬ s'.Live c → Bare (s.data c)
  come : ∀ c, s'.Live c → ¬ s.Live c → Bare (s'.data c)

theorem SameArcs.symm (h : s.SameArcs s') : s'.SameArcs s :=
  ⟨h.labels.symm, fun c hc hc' => (h.id c hc' hc).symm, fun c hc hc' => (h.out c hc' hc).symm,
    fun c hc hc' => (h.inbound c hc' hc).symm, h.come, h.gone⟩

theorem sameArcs_of_cells (hc : s'.cells = s.cells) (hl : s'.labels = s.labels) :
    s.SameArcs s' := by
  have hlive : ∀ c, s'.Live c ↔ s.Live c := fun c => by rw [Live, Live, data, cell, hc, data, cell]
  have hcell : ∀ c, s'.cell c = s.cell c := fun c => by rw [cell, cell, hc]
  exact ⟨hl, fun c _ _ => by rw [hcell], fun c _ _ => by rw [data, data, hcell],
    fun c _ _ => by rw [data, data, hcell], fun c h h' => absurd ((hlive c).2 h) h',
    fun c h h' => absurd ((hlive c).1 h) h'⟩

theorem sameArcs_modifyData {c : CellId} {f : VertexData → VertexData} (hf : KeepsArcs f) :
    s.SameArcs (s.modifyData c f) := by
  have hframe := hf.sameFrame s c
  refine ⟨rfl, fun c' _ _ => hframe.id c', fun c' _ _ => ?_, fun c' _ _ => ?_,
    fun c' h h' => absurd (hframe.live_iff.2 h) h', fun c' h h' => absurd (hframe.live_iff.1 h) h'⟩
  · rw [data_modifyData_ite]
    split
    · exact (hf _).1
    · rfl
  · rw [data_modifyData_ite]
    split
    · exact (hf _).2.1
    · rfl

section Bare

variable (h : s.SameArcs s') (hs : s.Sound agree) (hs' : s'.Sound agree)
include h hs hs'

/-- A vertex with an arc is in both stores, under the same names. -/
theorem SameArcs.lookup {id : String} {c : CellId} (hc : s.lookup id = some c)
    (harc : ¬ Bare (s.data c)) : s'.lookup id = some c ∧ s'.keyOf c = s.keyOf c := by
  obtain ⟨hlive, hid⟩ := hs.placed.of_lookup hc
  have hlive' : s'.Live c := Classical.byContradiction fun hgone => harc (h.gone c hlive hgone)
  have hid' := (h.id c hlive hlive').trans hid
  refine ⟨hid' ▸ hs'.placed.lookup_of_live hlive', ?_⟩
  have hfound : s'.lookup id = some c := hid' ▸ hs'.placed.lookup_of_live hlive'
  rw [hs'.placed.keyOf_of_lookup hfound, hs.placed.keyOf_of_lookup hc]

/-- A vertex with arcs stays, and a vertex without arcs has none in the listing. -/
theorem SameArcs.mem_arcs {p : PlacedArc} (hp : p ∈ s.arcs) : p ∈ s'.arcs := by
  obtain ⟨c, hc, hkey, ha⟩ := (mem_arcs_iff hs.placed).1 hp
  have harc : ¬ Bare (s.data c) := by
    intro hbare
    rw [hbare.out] at ha
    exact List.not_mem_nil ha
  obtain ⟨hfound, hkey'⟩ := h.lookup hs hs' (hs.placed.lookup_of_live hc) harc
  have hc' := (hs'.placed.of_lookup hfound).1
  refine (mem_arcs_iff hs'.placed).2 ⟨c, hc', hkey'.trans hkey, ?_⟩
  rw [h.out c hc hc']
  exact ha

theorem SameArcs.slot?_of (ha : s.slot? n = some a) : s'.slot? n = some a := by
  obtain ⟨i, t, code, hnames⟩ := denotes_of_slot? ha
  rw [hnames.slot?] at ha
  have hi := (hs.placed.of_lookup hnames.initial).1
  have ht := (hs.placed.of_lookup hnames.terminal).1
  have hbarei : ¬ Bare (s.data i) := by
    intro hbare
    rw [arcAt?, hbare.out] at ha
    cases ha
  have hbaret : ¬ Bare (s.data t) := by
    intro hbare
    have hnone := (hs.paired.arcsTo_of_bare ht hbare hs.placed hi).1
    have hvacant : s.arcAt? i t code n.kind = none := get?_of_arcsTo_eq_nil hnone code n.kind
    rw [hvacant] at ha
    cases ha
  obtain ⟨hi', _⟩ := h.lookup hs hs' hnames.initial hbarei
  obtain ⟨ht', hkey⟩ := h.lookup hs hs' hnames.terminal hbaret
  have hnames' : s'.Denotes n i t code := ⟨hi', ht', h.labels ▸ hnames.code⟩
  rw [hnames'.slot?, arcAt?, h.out i hi (hs'.placed.of_lookup hi').1,
    show (s'.cell t).key = (s.cell t).key from hkey]
  exact ha

theorem SameArcs.inwardSlot?_of (ha : s.inwardSlot? n = some a) : s'.inwardSlot? n = some a := by
  obtain ⟨i, t, code, hnames⟩ := denotes_of_inwardSlot? ha
  rw [hnames.inwardSlot?] at ha
  have hi := (hs.placed.of_lookup hnames.initial).1
  have ht := (hs.placed.of_lookup hnames.terminal).1
  have hbaret : ¬ Bare (s.data t) := by
    intro hbare
    rw [inwardAt?, hbare.inbound] at ha
    cases ha
  have hbarei : ¬ Bare (s.data i) := by
    intro hbare
    have hnone := (hs.paired.arcsTo_of_bare hi hbare hs.placed ht).2
    rw [inwardAt?, get?_of_arcsTo_eq_nil hnone] at ha
    cases ha
  obtain ⟨hi', hkey⟩ := h.lookup hs hs' hnames.initial hbarei
  obtain ⟨ht', _⟩ := h.lookup hs hs' hnames.terminal hbaret
  have hnames' : s'.Denotes n i t code := ⟨hi', ht', h.labels ▸ hnames.code⟩
  rw [hnames'.inwardSlot?, inwardAt?, h.inbound t ht (hs'.placed.of_lookup ht').1, hkey]
  exact ha

theorem SameArcs.sameSlots : s.SameSlots s' :=
  sameSlots_of (fun _ _ => ⟨h.slot?_of hs hs', h.symm.slot?_of hs' hs⟩)
    fun _ _ => ⟨h.inwardSlot?_of hs hs', h.symm.inwardSlot?_of hs' hs⟩

end Bare

/-! ## More labels -/

/-- A label that has a code keeps it. -/
theorem lookup?_of_grows {labels labels' : Labels} (hv : labels.relationships.Valid)
    (grows : labels.Grows labels') {label : String}
    (h : labels.relationships.lookup? label = some code) :
    labels'.relationships.lookup? label = some code :=
  (grows.valid hv label code).2 (grows.keeps code label ((hv label code).1 h))

/-- The code of an arc has its label already if it has it once more labels are there. -/
theorem Named.lookup?_of_grows (hn : s.Named) {labels : Labels} (grows : s.labels.Grows labels)
    {p : PlacedArc} (hp : p ∈ s.arcs) {label : String}
    (h : labels.relationships.lookup? label = some p.arc.relationship) :
    s.labels.relationships.lookup? label = some p.arc.relationship := by
  obtain ⟨label', hlabel'⟩ := hn.arcs p hp
  have hdecode := (grows.valid hn.valid label p.arc.relationship).1 h
  obtain rfl : label' = label :=
    Option.some.inj ((grows.keeps _ _ hlabel').symm.trans hdecode)
  exact (hn.valid label' p.arc.relationship).2 hlabel'

theorem sameSlots_labels (hs : s.Sound agree) (hn : s.Named) {labels : Labels}
    (grows : s.labels.Grows labels) : s.SameSlots { s with labels } := by
  refine sameSlots_of (fun n a => ⟨fun ha => ?_, fun ha => ?_⟩)
    fun n a => ⟨fun ha => ?_, fun ha => ?_⟩
  · obtain ⟨i, t, code, hnames⟩ := denotes_of_slot? ha
    have hnames' : Denotes { s with labels } n i t code :=
      ⟨hnames.initial, hnames.terminal, Store.lookup?_of_grows hn.valid grows hnames.code⟩
    rw [hnames.slot?] at ha
    exact hnames'.slot?.trans ha
  · obtain ⟨i, t, code, hnames⟩ := denotes_of_slot? ha
    rw [hnames.slot?] at ha
    have hat : s.arcAt? i t code n.kind = some a := ha
    obtain ⟨_, rfl, _⟩ := ArcIndex.get?_slot hat
    have hp := arcAt?_mem_arcs hs (hs.placed.of_lookup hnames.initial).1 hat
    have hnames' : s.Denotes n i t a.relationship :=
      ⟨hnames.initial, hnames.terminal, hn.lookup?_of_grows grows hp hnames.code⟩
    exact hnames'.slot?.trans hat
  · obtain ⟨i, t, code, hnames⟩ := denotes_of_inwardSlot? ha
    have hnames' : Denotes { s with labels } n i t code :=
      ⟨hnames.initial, hnames.terminal, Store.lookup?_of_grows hn.valid grows hnames.code⟩
    rw [hnames.inwardSlot?] at ha
    exact hnames'.inwardSlot?.trans ha
  · obtain ⟨i, t, code, hnames⟩ := denotes_of_inwardSlot? ha
    rw [hnames.inwardSlot?] at ha
    have hat : s.inwardAt? i t code n.kind = some a := ha
    obtain ⟨hm, rfl, _⟩ := ArcIndex.get?_slot hat
    have hi := (hs.placed.of_lookup hnames.initial).1
    obtain ⟨b, hb, _⟩ := hs.paired.out_of_inward hi (hs.placed.of_lookup hnames.terminal).1 hm
    obtain ⟨_, hcode, _⟩ := ArcIndex.get?_slot hb
    have hp := arcAt?_mem_arcs hs hi hb
    have hlookup : s.labels.relationships.lookup? n.relationship = some b.relationship :=
      hn.lookup?_of_grows grows hp (hcode ▸ hnames.code)
    have hnames' : s.Denotes n i t a.relationship :=
      ⟨hnames.initial, hnames.terminal, hcode ▸ hlookup⟩
    exact hnames'.inwardSlot?.trans hat

/-! ## Slots and arcs -/

/-- What is in a slot has the label and the kind of the slot. -/
theorem Named.decode_of_slot? (hn : s.Named) (ha : s.slot? n = some a) :
    s.labels.relationships.decode? a.relationship = some n.relationship ∧ a.kind = n.kind := by
  obtain ⟨i, t, code, hnames⟩ := denotes_of_slot? ha
  rw [hnames.slot?] at ha
  obtain ⟨_, rfl, hkind⟩ := ArcIndex.get?_slot ha
  exact ⟨(hn.valid _ _).1 hnames.code, hkind⟩

theorem mem_arcs_of_slot? (hs : s.Sound agree) (ha : s.slot? n = some a) :
    ⟨.of n.initial, .of n.terminal, a⟩ ∈ s.arcs := by
  obtain ⟨i, t, code, hnames⟩ := denotes_of_slot? ha
  rw [hnames.slot?] at ha
  have hm := arcAt?_mem_arcs hs (hs.placed.of_lookup hnames.initial).1 ha
  rwa [hs.placed.keyOf_of_lookup hnames.initial, hs.placed.keyOf_of_lookup hnames.terminal] at hm

/-- Every arc is in a slot. -/
theorem exists_slot?_of_mem_arcs (hs : s.Sound agree) (hn : s.Named) {p : PlacedArc}
    (hp : p ∈ s.arcs) : ∃ n, s.slot? n = some p.arc ∧ p.initial = .of n.initial ∧
      p.terminal = .of n.terminal := by
  obtain ⟨i, t, hi, ht, hik, htk, ha⟩ := exists_arcAt? hs hp
  obtain ⟨label, hlabel⟩ := hn.arcs p hp
  have hnames : s.Denotes ⟨(s.cell i).id, label, p.arc.kind, (s.cell t).id⟩ i t
      p.arc.relationship :=
    ⟨hs.placed.lookup_of_live hi, hs.placed.lookup_of_live ht, (hn.valid _ _).2 hlabel⟩
  exact ⟨_, hnames.slot?.trans ha, hik.symm.trans (hs.placed.keyed i hi.1),
    htk.symm.trans (hs.placed.keyed t ht.1)⟩

end Store

end Arcbase
