import Arcbase.Proofs.Store.Arcs
set_option autoImplicit false

/-!
# Both sides of every arc

In a *paired* store the outbound indexes of the live vertices are mirrored by what
their terminals hold: a regular arc by an arc in the same slot of the terminal's
inbound index, a forward-only one by the terminal's count.  Nothing else is inbound,
no index knows of a vertex that is gone, and the size counts the outbound arcs.

The two sides of a regular arc are related by a relation that is a parameter here:
equality in a store that was only ever written to, slot by slot agreement after a
snapshot with repeated arcs was restored.

* `paired_congr`: changes of other fields;
* `paired_addCell`, `paired_remove`: a vertex without arcs comes or goes.
-/

namespace Arcbase

theorem Slots.mem_put {arc a : StoredArc} {l : List StoredArc} (h : a ∈ Slots.put arc l) :
    a = arc ∨ a ∈ l := by
  induction l with
  | nil => exact .inl (List.mem_singleton.1 h)
  | cons b rest ih =>
    simp only [Slots.put] at h
    split at h
    · rcases List.mem_cons.1 h with e | hm
      · exact .inl e
      · exact .inr (List.mem_cons_of_mem b hm)
    · rcases List.mem_cons.1 h with e | hm
      · exact .inr (e ▸ List.mem_cons_self)
      · exact (ih hm).imp_right (List.mem_cons_of_mem b)

/-- How the two sides of a regular arc are related. -/
structure Agreement where
  rel : StoredArc → StoredArc → Prop
  refl : ∀ a, rel a a

/-- Both sides hold the same arc. -/
def Agreement.equal : Agreement := ⟨Eq, fun _ => rfl⟩

/-- Both sides hold an arc in the same slot. -/
def Agreement.slots : Agreement := ⟨fun a b => a.slot = b.slot, fun _ => rfl⟩

namespace Store

/-- The key under which other vertices know a cell. -/
def keyOf (s : Store) (c : CellId) : VertexKey := (s.cell c).key

/-- The regular arc in a slot from `i` to `t`, as the initial has it. -/
def regularOut (s : Store) (i t : CellId) (relationship : LabelCode) (kind : ArcKind) :
    Option StoredArc := (s.arcAt? i t relationship kind).filter fun a => !a.forwardOnly

/-- The arc in a slot from `i` to `t`, as the terminal has it. -/
def inwardAt? (s : Store) (i t : CellId) (relationship : LabelCode) (kind : ArcKind) :
    Option StoredArc := (s.data t).inbound.get? (s.keyOf i) relationship kind

/-- Number of forward-only arcs from one cell to another. -/
def forwardOnlyTo (s : Store) (t i : CellId) : Nat :=
  ((s.data i).out.arcsTo (s.keyOf t)).countP (·.forwardOnly)

/-- A vertex without arcs. -/
structure Bare (d : VertexData) : Prop where
  out : d.out = .empty
  inbound : d.inbound = .empty
  forwardOnlyIn : d.forwardOnlyIn = 0

/-- What the initials of all arcs hold is mirrored at the terminals. -/
structure Paired (agree : Agreement) (s : Store) : Prop where
  valid : ∀ c, s.Live c → (s.data c).out.Valid ∧ (s.data c).inbound.Valid
  known : ∀ c, s.Live c → ∀ n,
    (s.data c).out.arcsTo n ≠ [] ∨ (s.data c).inbound.arcsTo n ≠ [] → ∃ m, s.Live m ∧ s.keyOf m = n
  mirror : ∀ i t, s.Live i → s.Live t → ∀ relationship kind,
    Option.Rel agree.rel (s.regularOut i t relationship kind) (s.inwardAt? i t relationship kind)
  regular : ∀ c, s.Live c → ∀ n, ∀ a ∈ (s.data c).inbound.arcsTo n, a.forwardOnly = false
  counted : ∀ t, s.Live t → (s.data t).forwardOnlyIn = (s.registered.map (s.forwardOnlyTo t)).sum
  size : s.size = (s.registered.map fun c => (s.data c).out.size).sum

variable {agree : Agreement} {s s' : Store}

theorem paired_new (config : Config) (labels : Labels) : (new config labels).Paired agree := by
  have hnone : ∀ c, ¬ (new config labels).Live c := fun c h => Nat.not_lt_zero c h.1
  refine ⟨?_, ?_, ?_, ?_, ?_, rfl⟩
  · exact fun c h => absurd h (hnone c)
  · exact fun c h => absurd h (hnone c)
  · exact fun c _ h => absurd h (hnone c)
  · exact fun c h => absurd h (hnone c)
  · exact fun c h => absurd h (hnone c)

/-! ## From one side to the other -/

/-- Every inbound arc is the arc of an initial. -/
theorem Paired.out_of_inward (h : s.Paired agree) {i t : CellId} (hi : s.Live i) (ht : s.Live t)
    {b : StoredArc} (hb : b ∈ (s.data t).inbound.arcsTo (s.keyOf i)) :
    ∃ a, s.arcAt? i t b.relationship b.kind = some a ∧ a.forwardOnly = false ∧ agree.rel a b := by
  have hm := h.mirror i t hi ht b.relationship b.kind
  have hat : s.inwardAt? i t b.relationship b.kind = some b :=
    (ArcIndex.mem_arcsTo_iff (h.valid t ht).2 _ b).1 hb
  rw [hat] at hm
  cases hr : s.regularOut i t b.relationship b.kind with
  | none =>
    rw [hr] at hm
    cases hm
  | some a =>
    rw [hr] at hm
    obtain ⟨hfound, hregular⟩ := Option.filter_eq_some_iff.1 hr
    cases hm with
    | some hrel => exact ⟨a, hfound, by simpa using hregular, hrel⟩

/-- Every regular arc of an initial is inbound at its terminal. -/
theorem Paired.inward_of_out (h : s.Paired agree) {i t : CellId} (hi : s.Live i) (ht : s.Live t)
    {relationship : LabelCode} {kind : ArcKind} {a : StoredArc}
    (ha : s.arcAt? i t relationship kind = some a) (hf : a.forwardOnly = false) :
    ∃ b, s.inwardAt? i t relationship kind = some b ∧ agree.rel a b := by
  have hm := h.mirror i t hi ht relationship kind
  have hreg : s.regularOut i t relationship kind = some a :=
    Option.filter_eq_some_iff.2 ⟨ha, by simpa using hf⟩
  rw [hreg] at hm
  cases hb : s.inwardAt? i t relationship kind with
  | none =>
    rw [hb] at hm
    cases hm
  | some b =>
    rw [hb] at hm
    cases hm with
    | some hrel => exact ⟨b, rfl, hrel⟩

/-! ## Changes that touch no arc -/

/-- Stores that differ in no arc. -/
theorem paired_congr (h : s.Paired agree) (hf : s.SameFrame s') (hs : s'.size = s.size)
    (hout : ∀ c, (s'.data c).out = (s.data c).out)
    (hin : ∀ c, (s'.data c).inbound = (s.data c).inbound)
    (hcount : ∀ c, (s'.data c).forwardOnlyIn = (s.data c).forwardOnlyIn) : s'.Paired agree := by
  have hkey : ∀ c, s'.keyOf c = s.keyOf c := hf.key
  have hto : ∀ t c, s'.forwardOnlyTo t c = s.forwardOnlyTo t c := by
    intro t c
    rw [forwardOnlyTo, hout, hkey, forwardOnlyTo]
  refine ⟨?_, ?_, ?_, ?_, ?_, ?_⟩
  · intro c hc
    rw [hout, hin]
    exact h.valid c (hf.live_iff.1 hc)
  · intro c hc n
    rw [hout, hin]
    intro hn
    obtain ⟨m, hm, hk⟩ := h.known c (hf.live_iff.1 hc) n hn
    exact ⟨m, hf.live_iff.2 hm, (hkey m).trans hk⟩
  · intro i t hi ht relationship kind
    have hm := h.mirror i t (hf.live_iff.1 hi) (hf.live_iff.1 ht) relationship kind
    unfold regularOut arcAt? inwardAt? at hm ⊢
    rw [hout, hin, hkey, hf.key]
    exact hm
  · intro c hc n
    rw [hin]
    exact h.regular c (hf.live_iff.1 hc) n
  · intro t ht
    rw [hcount, h.counted t (hf.live_iff.1 ht), hf.registered]
    exact congrArg List.sum (List.map_congr_left fun c _ => (hto t c).symm)
  · rw [hs, h.size, hf.registered]
    simp only [hout]

theorem paired_modifyData (h : s.Paired agree) (c : CellId) {f : VertexData → VertexData}
    (hf : ∀ d, (f d).out = d.out ∧ (f d).inbound = d.inbound ∧
      (f d).forwardOnlyIn = d.forwardOnlyIn ∧ (f d).deleted = d.deleted) :
    (s.modifyData c f).Paired agree := by
  refine paired_congr h (sameFrame_modifyData s c fun d => (hf d).2.2.2) rfl ?_ ?_ ?_
  · intro c'
    rw [data_modifyData_ite]
    split
    · exact (hf _).1
    · rfl
  · intro c'
    rw [data_modifyData_ite]
    split
    · exact (hf _).2.1
    · rfl
  · intro c'
    rw [data_modifyData_ite]
    split
    · exact (hf _).2.2.1
    · rfl

/-! ## Vertices that come and go -/

theorem Paired.bare_iff (h : s.Paired agree) {c : CellId} (hc : s.Live c) :
    (s.data c).degree = 0 ↔ Bare (s.data c) := by
  rw [VertexData.degree, VertexData.indegree, VertexData.outdegree]
  constructor
  · intro hz
    have hv := h.valid c hc
    exact ⟨ArcIndex.eq_empty_of_size_eq_zero hv.1 (by omega),
      ArcIndex.eq_empty_of_size_eq_zero hv.2 (by omega), by omega⟩
  · intro hb
    rw [hb.out, hb.inbound, hb.forwardOnlyIn]
    rfl

/-- No arc is toward a key under which nothing is registered. -/
theorem Paired.arcsTo_of_unknown (h : s.Paired agree) (hp : s.Placed) {key : VertexKey}
    (hn : s.lookupKey key = none) {c : CellId} (hc : s.Live c) :
    (s.data c).out.arcsTo key = [] ∧ (s.data c).inbound.arcsTo key = [] := by
  have hnot : ¬ ((s.data c).out.arcsTo key ≠ [] ∨ (s.data c).inbound.arcsTo key ≠ []) := by
    intro hne
    obtain ⟨m, hm, hk⟩ := h.known c hc key hne
    have hl := hp.lookup_key hm
    rw [show (s.cell m).key = key from hk, hn] at hl
    cases hl
  simpa only [not_or, not_not] using hnot

/-- A forward-only arc is counted at its terminal. -/
theorem Paired.forwardOnlyIn_pos (h : s.Paired agree) (hp : s.Placed) {i t : CellId}
    (hi : s.Live i) (ht : s.Live t) {relationship : LabelCode} {kind : ArcKind} {a : StoredArc}
    (ha : s.arcAt? i t relationship kind = some a) (hf : a.forwardOnly = true) :
    0 < (s.data t).forwardOnlyIn := by
  have hpos : 0 < s.forwardOnlyTo t i := List.countP_pos_iff.2 ⟨a, (ArcIndex.get?_slot ha).1, hf⟩
  rw [h.counted t ht]
  exact List.sum_pos_iff_exists_pos_nat.2
    ⟨_, List.mem_map_of_mem ((mem_registered_iff hp).2 hi), hpos⟩

/-- A regular arc is in the inbound index of its terminal. -/
theorem Paired.inbound_pos (h : s.Paired agree) {i t : CellId} (hi : s.Live i) (ht : s.Live t)
    {relationship : LabelCode} {kind : ArcKind} {a : StoredArc}
    (ha : s.arcAt? i t relationship kind = some a) (hf : a.forwardOnly = false) :
    0 < (s.data t).inbound.size := by
  obtain ⟨b, hb, _⟩ := h.inward_of_out hi ht ha hf
  refine Nat.pos_of_ne_zero fun hz => ?_
  rw [inwardAt?, ArcIndex.eq_empty_of_size_eq_zero (h.valid t ht).2 hz] at hb
  cases hb

/-- No arc is toward a vertex without arcs. -/
theorem Paired.arcsTo_of_bare (h : s.Paired agree) {c x : CellId} (hc : s.Live c)
    (hb : Bare (s.data c)) (hp : s.Placed) (hx : s.Live x) :
    (s.data x).out.arcsTo (s.keyOf c) = [] ∧ (s.data x).inbound.arcsTo (s.keyOf c) = [] := by
  constructor
  · refine List.eq_nil_iff_forall_not_mem.2 fun a ha => ?_
    have hget := (ArcIndex.mem_arcsTo_iff (h.valid x hx).1 _ a).1 ha
    cases hfo : a.forwardOnly
    · have hpos := h.inbound_pos hx hc hget hfo
      rw [hb.inbound] at hpos
      exact Nat.lt_irrefl 0 hpos
    · have hpos := h.forwardOnlyIn_pos hp hx hc hget hfo
      rw [hb.forwardOnlyIn] at hpos
      exact Nat.lt_irrefl 0 hpos
  · refine List.eq_nil_iff_forall_not_mem.2 fun b hb' => ?_
    obtain ⟨a, ha, _⟩ := h.out_of_inward hc hx hb'
    rw [arcAt?, hb.out] at ha
    cases ha

theorem get?_of_arcsTo_eq_nil {i : ArcIndex} {n : VertexKey} (h : i.arcsTo n = [])
    (relationship : LabelCode) (kind : ArcKind) : i.get? n relationship kind = none := by
  rw [ArcIndex.get?, h]
  rfl

section Added

variable {new : Cell}

theorem data_addCell_of_live {c : CellId} (hc : s.Live c) :
    (s.addCell new).data c = s.data c ∧ (s.addCell new).keyOf c = s.keyOf c := by
  rw [data, keyOf, cell_addCell, if_neg (Nat.ne_of_lt hc.1)]
  exact ⟨rfl, rfl⟩

theorem data_addCell_new (s : Store) (new : Cell) :
    (s.addCell new).data s.cells.size = new.data ∧
      (s.addCell new).keyOf s.cells.size = new.key := by
  rw [data, keyOf, cell_addCell, if_pos rfl]
  exact ⟨rfl, rfl⟩

/-- To and from the new vertex there is nothing on either side. -/
theorem Paired.mirror_addCell (h : s.Paired agree) (hp : s.Placed)
    (hd : new.data.deleted = false) (hn : s.lookupKey new.key = none) (hb : Bare new.data)
    {i t : CellId} (hi : (s.addCell new).Live i) (ht : (s.addCell new).Live t)
    (relationship : LabelCode) (kind : ArcKind) :
    Option.Rel agree.rel ((s.addCell new).regularOut i t relationship kind)
      ((s.addCell new).inwardAt? i t relationship kind) := by
  obtain ⟨hdata, hkey⟩ := data_addCell_new s new
  have hunknown := fun c hc => h.arcsTo_of_unknown hp hn (c := c) hc
  rcases (live_addCell_iff hd).1 hi with rfl | hi <;>
    rcases (live_addCell_iff hd).1 ht with rfl | ht
  · rw [regularOut, arcAt?, inwardAt?, hdata, hb.out, hb.inbound]
    exact .none
  · rw [regularOut, arcAt?, inwardAt?, hdata, hb.out, hkey, (data_addCell_of_live ht).1,
      get?_of_arcsTo_eq_nil (hunknown t ht).2]
    exact .none
  · rw [regularOut, arcAt?, inwardAt?, hdata, hb.inbound, (data_addCell_of_live hi).1,
      show ((s.addCell new).cell s.cells.size).key = new.key from hkey,
      get?_of_arcsTo_eq_nil (hunknown i hi).1]
    exact .none
  · have hm := h.mirror i t hi ht relationship kind
    rw [regularOut, arcAt?, inwardAt?] at hm ⊢
    rw [(data_addCell_of_live hi).1, (data_addCell_of_live ht).1, (data_addCell_of_live hi).2,
      show ((s.addCell new).cell t).key = s.keyOf t from (data_addCell_of_live ht).2]
    exact hm

theorem Paired.counted_addCell (h : s.Paired agree) (hp : s.Placed)
    (hd : new.data.deleted = false) (hn : s.lookupKey new.key = none) (hb : Bare new.data)
    {t : CellId} (ht : (s.addCell new).Live t) :
    ((s.addCell new).data t).forwardOnlyIn =
      ((s.addCell new).registered.map ((s.addCell new).forwardOnlyTo t)).sum := by
  obtain ⟨hdata, hkey⟩ := data_addCell_new s new
  have hlast : (s.addCell new).forwardOnlyTo t s.cells.size = 0 := by
    rw [forwardOnlyTo, hdata, hb.out]
    rfl
  rw [registered_addCell hn, List.map_append, List.sum_append, List.map_singleton,
    List.sum_singleton, hlast, Nat.add_zero]
  rcases (live_addCell_iff hd).1 ht with rfl | ht
  · rw [hdata, hb.forwardOnlyIn, eq_comm, List.sum_eq_zero_iff_forall_eq_nat]
    intro n hm
    obtain ⟨c, hc, rfl⟩ := List.mem_map.1 hm
    have hc := (mem_registered_iff hp).1 hc
    rw [forwardOnlyTo, hkey, (data_addCell_of_live hc).1, (h.arcsTo_of_unknown hp hn hc).1]
    rfl
  · rw [(data_addCell_of_live ht).1, h.counted t ht]
    refine sum_registered_congr hp fun c hc => ?_
    rw [forwardOnlyTo, forwardOnlyTo, (data_addCell_of_live ht).2, (data_addCell_of_live hc).1]

theorem paired_addCell (h : s.Paired agree) (hp : s.Placed) (hd : new.data.deleted = false)
    (hn : s.lookupKey new.key = none) (hb : Bare new.data) : (s.addCell new).Paired agree := by
  have hdata := (data_addCell_new s new).1
  refine ⟨fun c hc => ?_, fun c hc n => ?_, fun i t hi ht => h.mirror_addCell hp hd hn hb hi ht,
    fun c hc n => ?_, fun t ht => h.counted_addCell hp hd hn hb ht, ?_⟩
  · rcases (live_addCell_iff hd).1 hc with rfl | hc
    · rw [hdata, hb.out, hb.inbound]
      exact ⟨ArcIndex.valid_empty, ArcIndex.valid_empty⟩
    · rw [(data_addCell_of_live hc).1]
      exact h.valid c hc
  · rcases (live_addCell_iff hd).1 hc with rfl | hc
    · rw [hdata, hb.out, hb.inbound]
      simp
    · rw [(data_addCell_of_live hc).1]
      intro hne
      obtain ⟨m, hm, hk⟩ := h.known c hc n hne
      exact ⟨m, (live_addCell_iff hd).2 (.inr hm), (data_addCell_of_live hm).2.trans hk⟩
  · rcases (live_addCell_iff hd).1 hc with rfl | hc
    · rw [hdata, hb.inbound]
      simp
    · rw [(data_addCell_of_live hc).1]
      exact h.regular c hc n
  · rw [registered_addCell hn, List.map_append, List.sum_append, List.map_singleton,
      List.sum_singleton, hdata, hb.out]
    refine h.size.trans ?_
    refine sum_registered_congr hp fun c hc => ?_
    rw [(data_addCell_of_live hc).1]

end Added

theorem data_remove_of_ne {c c' : CellId} (hne : c ≠ c') :
    (s.remove c).data c' = s.data c' ∧ (s.remove c).keyOf c' = s.keyOf c' := by
  rw [data, keyOf, cell_remove, cell_modifyData, if_neg fun e => hne e.1]
  exact ⟨rfl, rfl⟩

theorem paired_remove (h : s.Paired agree) (hp : s.Placed) {c : CellId} (hc : s.Live c)
    (hb : Bare (s.data c)) : (s.remove c).Paired agree := by
  have hsum : ∀ w : CellId → Nat,
      (s.registered.map w).sum = w c + ((s.remove c).registered.map w).sum := by
    intro w
    rw [((registered_perm_of_live hp hc).map w).sum_eq, List.map_cons, List.sum_cons, registered,
      table_remove hp hc]
  have hplaced := placed_remove hp hc
  refine ⟨?_, ?_, ?_, ?_, ?_, ?_⟩
  · intro x hx
    obtain ⟨hx, hne⟩ := live_remove_iff.1 hx
    rw [(data_remove_of_ne hne).1]
    exact h.valid x hx
  · intro x hx n hn
    obtain ⟨hx, hne⟩ := live_remove_iff.1 hx
    rw [(data_remove_of_ne hne).1] at hn
    obtain ⟨m, hm, hk⟩ := h.known x hx n hn
    have hmne : c ≠ m := by
      rintro rfl
      have hnil := h.arcsTo_of_bare hc hb hp hx
      rw [hk] at hnil
      exact hn.elim (fun e => e hnil.1) (fun e => e hnil.2)
    exact ⟨m, live_remove_iff.2 ⟨hm, hmne⟩, (data_remove_of_ne hmne).2.trans hk⟩
  · intro i t hi ht relationship kind
    obtain ⟨hi, hic⟩ := live_remove_iff.1 hi
    obtain ⟨ht, htc⟩ := live_remove_iff.1 ht
    have hm := h.mirror i t hi ht relationship kind
    rw [regularOut, arcAt?, inwardAt?] at hm ⊢
    rw [(data_remove_of_ne hic).1, (data_remove_of_ne htc).1, (data_remove_of_ne hic).2,
      show ((s.remove c).cell t).key = s.keyOf t from (data_remove_of_ne htc).2]
    exact hm
  · intro x hx n
    obtain ⟨hx, hne⟩ := live_remove_iff.1 hx
    rw [(data_remove_of_ne hne).1]
    exact h.regular x hx n
  · intro t ht
    obtain ⟨ht, htc⟩ := live_remove_iff.1 ht
    have hzero : s.forwardOnlyTo t c = 0 := by
      rw [forwardOnlyTo, hb.out]
      rfl
    rw [(data_remove_of_ne htc).1, h.counted t ht, hsum, hzero, Nat.zero_add]
    refine (sum_registered_congr hplaced fun x hx => ?_).symm
    obtain ⟨_, hne⟩ := live_remove_iff.1 hx
    rw [forwardOnlyTo, forwardOnlyTo, (data_remove_of_ne hne).1, (data_remove_of_ne htc).2]
  · have hsize : (s.remove c).size = s.size := by
      simp only [remove, unlink]
      split <;> rfl
    have hzero : (s.data c).out.size = 0 := by
      rw [hb.out]
      rfl
    rw [hsize, h.size, hsum fun c => (s.data c).out.size, hzero, Nat.zero_add]
    refine (sum_registered_congr hplaced fun x hx => ?_).symm
    obtain ⟨_, hne⟩ := live_remove_iff.1 hx
    rw [(data_remove_of_ne hne).1]

end Store

end Arcbase
