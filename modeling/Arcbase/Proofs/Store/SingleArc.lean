import Arcbase.Proofs.Store.Paired
set_option autoImplicit false

/-!
# One arc written or taken off

A write leaves a store with one arc more, or with another arc in its slot (`Wrote`); a
restore may replace the initial's side alone (`Overwrote`); taking an arc off leaves one
less (`Took`).  Each is described by what it does to the slots of all initials and
terminals, and from that it keeps a store paired: `paired_wrote`, `paired_overwrote`,
`paired_took`.
-/

namespace Arcbase.Store

variable {agree : Agreement} {s s' : Store}

theorem keyOf_eq_iff (hp : s.Placed) {c c' : CellId} (hc : s.Live c) (hc' : s.Live c') :
    s.keyOf c = s.keyOf c' ↔ c = c' :=
  ⟨hp.eq_of_key hc hc', fun e => e ▸ rfl⟩

/-! ## The initial's side of a write -/

/-- The initial has the arc in its slot; the outbound indexes of others are as before. -/
structure InitialSide (s : Store) (i t : CellId) (arc : StoredArc) (s' : Store) : Prop where
  frame : s.SameFrame s'
  out : ∀ c, (s'.data c).out =
    if i = c then ((s.data c).out.insert (s.cell t).key arc).2 else (s.data c).out

section Initial

variable {i t : CellId} {arc : StoredArc}

/-- What the initials have in their slots after a write. -/
theorem InitialSide.arcAt? (w : s.InitialSide i t arc s') (hp : s.Placed) (ht : s.Live t)
    {i' t' : CellId} (ht' : s.Live t') (relationship : LabelCode) (kind : ArcKind) :
    s'.arcAt? i' t' relationship kind =
      if i = i' ∧ t = t' ∧ arc.inSlot relationship kind = true then some arc
      else s.arcAt? i' t' relationship kind := by
  rw [Store.arcAt?, Store.arcAt?, w.out, w.frame.key]
  by_cases hi : i = i'
  · simp only [hi, if_true, true_and]
    rw [ArcIndex.get?_insert]
    simp only [show (s.cell t).key = (s.cell t').key ↔ t = t' from keyOf_eq_iff hp ht ht']
  · simp [hi]

/-- Only the initial's arcs to the terminal are counted anew. -/
theorem InitialSide.forwardOnlyTo (w : s.InitialSide i t arc s') (hp : s.Placed) (ht : s.Live t)
    {t' : CellId} (ht' : s.Live t') :
    s'.forwardOnlyTo t' i =
      if t = t' then (Slots.put arc ((s.data i).out.arcsTo (s.keyOf t))).countP (·.forwardOnly)
      else s.forwardOnlyTo t' i := by
  rw [Store.forwardOnlyTo, w.out, show s'.keyOf t' = s.keyOf t' from w.frame.key t']
  rw [if_pos rfl, ArcIndex.arcsTo_insert]
  simp only [show (s.cell t).key = s.keyOf t' ↔ t = t' from keyOf_eq_iff hp ht ht']
  split <;> rfl

theorem InitialSide.forwardOnlyTo_of_ne (w : s.InitialSide i t arc s') {c : CellId}
    (hne : i ≠ c) (t' : CellId) : s'.forwardOnlyTo t' c = s.forwardOnlyTo t' c := by
  rw [Store.forwardOnlyTo, w.out, if_neg hne, show s'.keyOf t' = s.keyOf t' from w.frame.key t',
    Store.forwardOnlyTo]

theorem InitialSide.valid (w : s.InitialSide i t arc s') (h : s.Paired agree) {c : CellId}
    (hc : s.Live c) : (s'.data c).out.Valid := by
  rw [w.out]
  split
  · exact ArcIndex.valid_insert (h.valid c hc).1 _ _
  · exact (h.valid c hc).1

end Initial

/-! ## Writing an arc -/

/-- The store holds an arc more than another one, or another arc in its slot. -/
structure Wrote (s : Store) (i t : CellId) (arc : StoredArc) (s' : Store) : Prop where
  frame : s.SameFrame s'
  data : ∀ c, s'.data c =
    s.dataWith i t arc (s.arcAt? i t arc.relationship arc.kind).isNone c
  size : s'.size =
    if (s.arcAt? i t arc.relationship arc.kind).isNone then s.size + 1 else s.size
  flag : ∀ old, s.arcAt? i t arc.relationship arc.kind = some old →
    arc.forwardOnly = old.forwardOnly

theorem wrote_putArc {i t : CellId} (hi : s.Live i) (ht : s.Live t) (relationship : LabelCode)
    (kind : ArcKind) (forwardOnly : Bool) (u : ArcUpdate) (now : UInt32) :
    s.Wrote i t (s.writtenArc i t relationship kind forwardOnly u now)
      (s.putArc i t relationship kind forwardOnly u now).2 := by
  refine ⟨sameFrame_putArc .., data_putArc _ _ _ _ _ hi.1 ht.1, size_putArc .., ?_⟩
  intro old hold
  rw [writtenArc, show s.arcAt? i t relationship kind = some old from hold]
  rfl

section Write

variable {i t : CellId} {arc : StoredArc}

theorem Wrote.keyOf (w : s.Wrote i t arc s') (c : CellId) : s'.keyOf c = s.keyOf c := w.frame.key c

theorem Wrote.initialSide (w : s.Wrote i t arc s') : s.InitialSide i t arc s' :=
  ⟨w.frame, fun c => by rw [w.data, dataWith]⟩

/-- What the terminals have in their slots after a write. -/
theorem Wrote.inwardAt? (w : s.Wrote i t arc s') (hp : s.Placed) (hi : s.Live i) {i' t' : CellId}
    (hi' : s.Live i') (relationship : LabelCode) (kind : ArcKind) :
    s'.inwardAt? i' t' relationship kind =
      if (i = i' ∧ t = t' ∧ arc.inSlot relationship kind = true) ∧ arc.forwardOnly = false then
        some arc
      else s.inwardAt? i' t' relationship kind := by
  rw [Store.inwardAt?, Store.inwardAt?, w.data, dataWith, w.keyOf]
  by_cases ht : t = t'
  · cases hf : arc.forwardOnly
    · simp only [ht, and_true, if_true, true_and]
      rw [ArcIndex.get?_insert]
      simp only [show (s.cell i).key = s.keyOf i' ↔ i = i' from keyOf_eq_iff hp hi hi']
    · simp
  · simp [ht]

theorem Wrote.valid (w : s.Wrote i t arc s') (h : s.Paired agree) {c : CellId} (hc : s.Live c) :
    (s'.data c).out.Valid ∧ (s'.data c).inbound.Valid := by
  refine ⟨w.initialSide.valid h hc, ?_⟩
  rw [w.data, dataWith]
  dsimp only
  split
  · exact ArcIndex.valid_insert (h.valid c hc).2 _ _
  · exact (h.valid c hc).2

theorem Wrote.known (w : s.Wrote i t arc s') (h : s.Paired agree) (hi : s.Live i) (ht : s.Live t)
    {c : CellId} (hc : s.Live c) {n : VertexKey}
    (hn : (s'.data c).out.arcsTo n ≠ [] ∨ (s'.data c).inbound.arcsTo n ≠ []) :
    ∃ m, s.Live m ∧ s.keyOf m = n := by
  rw [w.data, dataWith] at hn
  dsimp only at hn
  by_cases hnt : (s.cell t).key = n
  · exact ⟨t, ht, hnt⟩
  by_cases hni : (s.cell i).key = n
  · exact ⟨i, hi, hni⟩
  refine h.known c hc n (hn.imp (fun hn => ?_) fun hn => ?_)
  · split at hn
    · rwa [ArcIndex.arcsTo_insert, if_neg hnt] at hn
    · exact hn
  · split at hn
    · rwa [ArcIndex.arcsTo_insert, if_neg hni] at hn
    · exact hn

/-- A forward-only arc does not take the slot of a regular one. -/
theorem Wrote.regularOut_eq_none (w : s.Wrote i t arc s') (hf : arc.forwardOnly = true) :
    s.regularOut i t arc.relationship arc.kind = none := by
  rw [regularOut]
  cases hold : s.arcAt? i t arc.relationship arc.kind with
  | none => rfl
  | some old =>
    have hfo := (w.flag old hold).symm.trans hf
    simp [hfo]

theorem Wrote.mirror (w : s.Wrote i t arc s') (h : s.Paired agree) (hp : s.Placed)
    (hi : s.Live i) (ht : s.Live t) {i' t' : CellId} (hi' : s.Live i') (ht' : s.Live t')
    (relationship : LabelCode) (kind : ArcKind) :
    Option.Rel agree.rel (s'.regularOut i' t' relationship kind)
      (s'.inwardAt? i' t' relationship kind) := by
  have hm := h.mirror i' t' hi' ht' relationship kind
  rw [regularOut, w.initialSide.arcAt? hp ht ht', w.inwardAt? hp hi hi']
  by_cases hslot : i = i' ∧ t = t' ∧ arc.inSlot relationship kind = true
  · rw [if_pos hslot]
    cases hf : arc.forwardOnly
    · have hkept : (some arc).filter (fun a => !a.forwardOnly) = some arc := by
        simp [Option.filter, hf]
      rw [if_pos ⟨hslot, rfl⟩, hkept]
      exact .some (agree.refl arc)
    · have hdropped : (some arc).filter (fun a => !a.forwardOnly) = none := by
        simp [Option.filter, hf]
      obtain ⟨rfl, rfl, hs⟩ := hslot
      obtain ⟨rfl, rfl⟩ := Slots.inSlot_iff.1 hs
      rw [w.regularOut_eq_none hf] at hm
      rw [if_neg (by simp), hdropped]
      exact hm
  · rw [if_neg hslot, if_neg fun e => hslot e.1]
    exact hm

theorem Wrote.regular (w : s.Wrote i t arc s') (h : s.Paired agree) {c : CellId} (hc : s.Live c)
    {n : VertexKey} {a : StoredArc} (ha : a ∈ (s'.data c).inbound.arcsTo n) :
    a.forwardOnly = false := by
  have hold := h.regular c hc n
  rw [w.data, dataWith] at ha
  dsimp only at ha
  split at ha
  next hcase =>
    rw [ArcIndex.arcsTo_insert] at ha
    split at ha
    next hn =>
      rcases Slots.mem_put ha with rfl | hm
      · exact hcase.2
      · exact hold a (hn ▸ hm)
    next => exact hold a ha
  next => exact hold a ha

theorem Wrote.counted (w : s.Wrote i t arc s') (h : s.Paired agree) (hp : s.Placed)
    (hi : s.Live i) (ht : s.Live t) {t' : CellId} (ht' : s.Live t') :
    (s'.data t').forwardOnlyIn = (s'.registered.map (s'.forwardOnlyTo t')).sum := by
  have hsum := sum_registered_update hp hi
    (v := s.forwardOnlyTo t') (w := s'.forwardOnlyTo t')
    fun c _ hne => w.initialSide.forwardOnlyTo_of_ne hne t'
  have hput := Slots.countP_put (·.forwardOnly) arc ((s.data i).out.arcsTo (s.keyOf t))
  have hat : Slots.find? arc.relationship arc.kind ((s.data i).out.arcsTo (s.keyOf t)) =
    s.arcAt? i t arc.relationship arc.kind := rfl
  have hcount := h.counted t' ht'
  rw [w.frame.registered, w.data, dataWith]
  dsimp only
  rw [hat] at hput
  rw [w.initialSide.forwardOnlyTo hp ht ht'] at hsum
  by_cases htt : t = t'
  · subst htt
    have hold : s.forwardOnlyTo t i =
      ((s.data i).out.arcsTo (s.keyOf t)).countP (·.forwardOnly) := rfl
    rw [if_pos rfl] at hsum
    cases hc : s.arcAt? i t arc.relationship arc.kind with
    | none =>
      rw [hc] at hput
      cases hf : arc.forwardOnly <;> simp [hf] at hput ⊢ <;> omega
    | some old =>
      have hfo := w.flag old hc
      rw [hc] at hput
      simp [hfo] at hput ⊢
      omega
  · rw [if_neg htt] at hsum
    rw [if_neg fun e => htt e.1]
    omega

theorem Wrote.size_eq_sum (w : s.Wrote i t arc s') (h : s.Paired agree) (hp : s.Placed)
    (hi : s.Live i) : s'.size = (s'.registered.map fun c => (s'.data c).out.size).sum := by
  have hsum := sum_registered_update hp hi
    (v := fun c => (s.data c).out.size) (w := fun c => (s'.data c).out.size) (by
      intro c _ hne
      rw [w.data, dataWith]
      simp [hne])
  have hsize := ArcIndex.size_insert (s.data i).out (s.cell t).key arc
  have hat : (s.data i).out.get? (s.cell t).key arc.relationship arc.kind =
    s.arcAt? i t arc.relationship arc.kind := rfl
  have hnew : (s'.data i).out.size = ((s.data i).out.insert (s.cell t).key arc).2.size := by
    rw [w.data, dataWith]
    simp
  have hold := h.size
  rw [w.frame.registered, w.size]
  rw [hat] at hsize
  simp only [hnew, hsize] at hsum
  cases hc : s.arcAt? i t arc.relationship arc.kind <;> simp [hc] at hsum ⊢ <;> omega

theorem paired_wrote (w : s.Wrote i t arc s') (h : s.Paired agree) (hp : s.Placed)
    (hi : s.Live i) (ht : s.Live t) : s'.Paired agree := by
  have hlive : ∀ {c}, s'.Live c → s.Live c := w.frame.live_iff.1
  refine ⟨fun c hc => w.valid h (hlive hc), fun c hc n hn => ?_, fun i' t' hi' ht' => ?_,
    fun c hc n a ha => w.regular h (hlive hc) ha, fun t' ht' => ?_, w.size_eq_sum h hp hi⟩
  · obtain ⟨m, hm, hk⟩ := w.known h hi ht (hlive hc) hn
    exact ⟨m, w.frame.live_iff.2 hm, (w.keyOf m).trans hk⟩
  · exact w.mirror h hp hi ht (hlive hi') (hlive ht')
  · exact w.counted h hp hi ht (hlive ht')

end Write

/-! ## Replacing the initial's side only -/

/-- An arc of the same side has replaced another one in its slot, for the initial only. -/
structure Overwrote (s : Store) (i t : CellId) (arc old : StoredArc) (s' : Store) : Prop where
  found : s.arcAt? i t arc.relationship arc.kind = some old
  side : old.forwardOnly = arc.forwardOnly
  frame : s.SameFrame s'
  data : ∀ c, s'.data c =
    { s.data c with
      out := if i = c then ((s.data c).out.insert (s.cell t).key arc).2 else (s.data c).out }
  size : s'.size = s.size

theorem overwrote_modifyData {i : CellId} (hi : s.Live i) (t : CellId) (arc : StoredArc)
    {old : StoredArc}
    (hold : s.arcAt? i t arc.relationship arc.kind = some old)
    (hside : old.forwardOnly = arc.forwardOnly) :
    s.Overwrote i t arc old
      (s.modifyData i fun d => { d with out := (d.out.insert (s.keyOf t) arc).2 }) := by
  refine ⟨hold, hside, sameFrame_modifyData s i fun _ => rfl, fun c => ?_, rfl⟩
  rw [data_modifyData_ite]
  by_cases hc : i = c
  · rw [if_pos ⟨hc, hi.1⟩, if_pos hc]
    rfl
  · rw [if_neg fun e => hc e.1, if_neg hc]

section Overwrite

variable {i t : CellId} {arc old : StoredArc}

theorem Overwrote.initialSide (w : s.Overwrote i t arc old s') : s.InitialSide i t arc s' :=
  ⟨w.frame, fun c => by rw [w.data]⟩

theorem Overwrote.known (w : s.Overwrote i t arc old s') (h : s.Paired agree) (ht : s.Live t)
    {c : CellId} (hc : s.Live c) {n : VertexKey}
    (hn : (s'.data c).out.arcsTo n ≠ [] ∨ (s'.data c).inbound.arcsTo n ≠ []) :
    ∃ m, s.Live m ∧ s.keyOf m = n := by
  by_cases hnt : (s.cell t).key = n
  · exact ⟨t, ht, hnt⟩
  rw [w.data] at hn
  dsimp only at hn
  refine h.known c hc n (hn.imp_left fun hn => ?_)
  split at hn
  · rwa [ArcIndex.arcsTo_insert, if_neg hnt] at hn
  · exact hn

/-- Slot by slot the two sides still agree. -/
theorem Overwrote.mirror (w : s.Overwrote i t arc old s') (h : s.Paired .slots) (hp : s.Placed)
    (ht : s.Live t) {i' t' : CellId} (hi' : s.Live i') (ht' : s.Live t')
    (relationship : LabelCode) (kind : ArcKind) :
    Option.Rel Agreement.slots.rel (s'.regularOut i' t' relationship kind)
      (s'.inwardAt? i' t' relationship kind) := by
  have hm := h.mirror i' t' hi' ht' relationship kind
  have hinward : s'.inwardAt? i' t' relationship kind = s.inwardAt? i' t' relationship kind := by
    rw [inwardAt?, inwardAt?, w.data, show s'.keyOf i' = s.keyOf i' from w.frame.key i']
  rw [regularOut, w.initialSide.arcAt? hp ht ht', hinward]
  by_cases hslot : i = i' ∧ t = t' ∧ arc.inSlot relationship kind = true
  · rw [if_pos hslot]
    obtain ⟨rfl, rfl, hin⟩ := hslot
    obtain ⟨rfl, rfl⟩ := Slots.inSlot_iff.1 hin
    obtain ⟨_, hr, hk⟩ := ArcIndex.get?_slot w.found
    have hside := w.side
    rw [regularOut, w.found] at hm
    cases hf : arc.forwardOnly
    · rw [hf] at hside
      simp only [Option.filter, hside, hf, Bool.not_false, if_true] at hm ⊢
      generalize s.inwardAt? i t arc.relationship arc.kind = inward at hm ⊢
      cases hm with
      | some hrel =>
        refine .some (Eq.trans ?_ hrel)
        rw [StoredArc.slot, StoredArc.slot, hr, hk]
    · rw [hf] at hside
      simp only [Option.filter, hside, hf, Bool.not_true, Bool.false_eq_true, if_false] at hm ⊢
      exact hm
  · rw [if_neg hslot]
    exact hm

theorem Overwrote.forwardOnlyTo (w : s.Overwrote i t arc old s') (hp : s.Placed) (ht : s.Live t)
    {t' : CellId} (ht' : s.Live t') (c : CellId) :
    s'.forwardOnlyTo t' c = s.forwardOnlyTo t' c := by
  by_cases hc : i = c
  · subst hc
    rw [w.initialSide.forwardOnlyTo hp ht ht']
    split
    next htt =>
      have hput := Slots.countP_put (·.forwardOnly) arc ((s.data i).out.arcsTo (s.keyOf t))
      have hfind : Slots.find? arc.relationship arc.kind ((s.data i).out.arcsTo (s.keyOf t)) =
        some old := w.found
      rw [hfind, Option.map_some, Option.getD_some, w.side] at hput
      rw [← htt]
      exact Nat.add_right_cancel hput
    next => rfl
  · exact w.initialSide.forwardOnlyTo_of_ne hc t'

theorem Overwrote.out_size (w : s.Overwrote i t arc old s') (c : CellId) :
    (s'.data c).out.size = (s.data c).out.size := by
  rw [w.data]
  dsimp only
  split
  next hc =>
    subst hc
    have hfound : (s.data i).out.get? (s.cell t).key arc.relationship arc.kind = some old := w.found
    rw [ArcIndex.size_insert, hfound, Option.isSome_some, if_pos rfl]
  next => rfl

theorem paired_overwrote (w : s.Overwrote i t arc old s') (h : s.Paired .slots) (hp : s.Placed)
    (ht : s.Live t) : s'.Paired .slots := by
  have hlive : ∀ {c}, s'.Live c → s.Live c := w.frame.live_iff.1
  have hinbound : ∀ c, (s'.data c).inbound = (s.data c).inbound := fun c => by rw [w.data]
  refine ⟨fun c hc => ⟨w.initialSide.valid h (hlive hc), ?_⟩, fun c hc n hn => ?_,
    fun i' t' hi' ht' => ?_, fun c hc n => ?_, fun t' ht' => ?_, ?_⟩
  · rw [hinbound]
    exact (h.valid c (hlive hc)).2
  · obtain ⟨m, hm, hk⟩ := w.known h ht (hlive hc) hn
    exact ⟨m, w.frame.live_iff.2 hm, (w.frame.key m).trans hk⟩
  · exact w.mirror h hp ht (hlive hi') (hlive ht')
  · rw [hinbound]
    exact h.regular c (hlive hc) n
  · rw [w.data, w.frame.registered]
    refine (h.counted t' (hlive ht')).trans (congrArg List.sum (List.map_congr_left fun c _ => ?_))
    exact (w.forwardOnlyTo hp ht (hlive ht') c).symm
  · rw [w.size, w.frame.registered]
    refine h.size.trans (congrArg List.sum (List.map_congr_left fun c _ => ?_))
    exact (w.out_size c).symm

end Overwrite

/-! ## Taking an arc off -/

/-- The store holds one arc less than another one. -/
structure Took (s : Store) (i t : CellId) (arc : StoredArc) (s' : Store) : Prop where
  found : s.arcAt? i t arc.relationship arc.kind = some arc
  frame : s.SameFrame s'
  data : ∀ c, s'.data c = s.dataWithout i t arc c
  size : s'.size = s.size - 1

theorem took_detach {i t : CellId} {arc removed : StoredArc} (hi : s.Live i) (ht : s.Live t)
    (h : s.arcAt? i t arc.relationship arc.kind = some removed) :
    s.Took i t removed { (s.detach i t arc).2 with size := s.size - 1 } := by
  obtain ⟨_, hr, hk⟩ := ArcIndex.get?_slot h
  refine ⟨by rw [hr, hk]; exact h, ?_, data_detach hi.1 ht.1 h, rfl⟩
  exact (sameFrame_detach s i t arc).trans (sameFrame_of_cells rfl rfl)

section Take

variable {i t : CellId} {arc : StoredArc}

theorem Took.keyOf (w : s.Took i t arc s') (c : CellId) : s'.keyOf c = s.keyOf c := w.frame.key c

/-- What the initials have in their slots once an arc is taken off. -/
theorem Took.arcAt? (w : s.Took i t arc s') (h : s.Paired agree) (hp : s.Placed)
    (hi : s.Live i) (ht : s.Live t) {i' t' : CellId} (ht' : s.Live t')
    (relationship : LabelCode) (kind : ArcKind) :
    s'.arcAt? i' t' relationship kind =
      if i = i' ∧ t = t' ∧ arc.relationship = relationship ∧ arc.kind = kind then none
      else s.arcAt? i' t' relationship kind := by
  rw [Store.arcAt?, Store.arcAt?, w.data, dataWithout, w.frame.key]
  by_cases hc : i = i'
  · subst hc
    simp only [if_true, true_and]
    rw [ArcIndex.get?_remove (h.valid i hi).1]
    simp only [show (s.cell t).key = (s.cell t').key ↔ t = t' from keyOf_eq_iff hp ht ht']
  · simp [hc]

/-- What the terminals have in their slots once an arc is taken off. -/
theorem Took.inwardAt? (w : s.Took i t arc s') (h : s.Paired agree) (hp : s.Placed)
    (hi : s.Live i) (ht : s.Live t) {i' t' : CellId} (hi' : s.Live i')
    (relationship : LabelCode) (kind : ArcKind) :
    s'.inwardAt? i' t' relationship kind =
      if (i = i' ∧ t = t' ∧ arc.relationship = relationship ∧ arc.kind = kind) ∧
          arc.forwardOnly = false then none
      else s.inwardAt? i' t' relationship kind := by
  rw [Store.inwardAt?, Store.inwardAt?, w.data, dataWithout, w.keyOf]
  by_cases hc : t = t'
  · subst hc
    cases hf : arc.forwardOnly
    · simp only [and_true, if_true, true_and]
      rw [ArcIndex.get?_remove (h.valid t ht).2]
      simp only [show (s.cell i).key = s.keyOf i' ↔ i = i' from keyOf_eq_iff hp hi hi']
    · simp
  · simp [hc]

/-- No index has gained an arc. -/
theorem Took.mem_out (w : s.Took i t arc s') (h : s.Paired agree) (hi : s.Live i) {c : CellId}
    {n : VertexKey} {a : StoredArc} (ha : a ∈ (s'.data c).out.arcsTo n) :
    a ∈ (s.data c).out.arcsTo n := by
  rw [w.data, dataWithout] at ha
  dsimp only at ha
  split at ha
  next hc => exact ArcIndex.mem_arcsTo_of_remove (hc ▸ (h.valid i hi).1) ha
  next => exact ha

theorem Took.mem_inbound (w : s.Took i t arc s') (h : s.Paired agree) (ht : s.Live t)
    {c : CellId} {n : VertexKey} {a : StoredArc} (ha : a ∈ (s'.data c).inbound.arcsTo n) :
    a ∈ (s.data c).inbound.arcsTo n := by
  rw [w.data, dataWithout] at ha
  dsimp only at ha
  split at ha
  next hc => exact ArcIndex.mem_arcsTo_of_remove (hc.1 ▸ (h.valid t ht).2) ha
  next => exact ha

theorem Took.valid (w : s.Took i t arc s') (h : s.Paired agree) {c : CellId} (hc : s.Live c) :
    (s'.data c).out.Valid ∧ (s'.data c).inbound.Valid := by
  obtain ⟨hout, hin⟩ := h.valid c hc
  rw [w.data, dataWithout]
  constructor
  · dsimp only
    split
    · exact ArcIndex.valid_remove hout _ _ _
    · exact hout
  · dsimp only
    split
    · exact ArcIndex.valid_remove hin _ _ _
    · exact hin

theorem Took.mirror (w : s.Took i t arc s') (h : s.Paired agree) (hp : s.Placed)
    (hi : s.Live i) (ht : s.Live t) {i' t' : CellId} (hi' : s.Live i') (ht' : s.Live t')
    (relationship : LabelCode) (kind : ArcKind) :
    Option.Rel agree.rel (s'.regularOut i' t' relationship kind)
      (s'.inwardAt? i' t' relationship kind) := by
  have hm := h.mirror i' t' hi' ht' relationship kind
  rw [regularOut, w.arcAt? h hp hi ht ht', w.inwardAt? h hp hi ht hi']
  by_cases hslot : i = i' ∧ t = t' ∧ arc.relationship = relationship ∧ arc.kind = kind
  · rw [if_pos hslot]
    cases hf : arc.forwardOnly
    · rw [if_pos ⟨hslot, rfl⟩]
      exact .none
    · rw [if_neg (by simp)]
      obtain ⟨rfl, rfl, rfl, rfl⟩ := hslot
      have hnone : s.regularOut i t arc.relationship arc.kind = none := by
        rw [regularOut, w.found]
        simp [Option.filter, hf]
      rw [hnone] at hm
      exact hm
  · rw [if_neg hslot, if_neg fun e => hslot e.1]
    exact hm

/-- Only the initial's arcs to the terminal are counted anew. -/
theorem Took.forwardOnlyTo (w : s.Took i t arc s') (h : s.Paired agree) (hp : s.Placed)
    (hi : s.Live i) (ht : s.Live t) {t' : CellId} (ht' : s.Live t') :
    s'.forwardOnlyTo t' i =
      if t = t' then
        (Slots.remove arc.relationship arc.kind
          ((s.data i).out.arcsTo (s.keyOf t))).countP (·.forwardOnly)
      else s.forwardOnlyTo t' i := by
  rw [Store.forwardOnlyTo, w.data, dataWithout, w.keyOf]
  dsimp only
  rw [if_pos rfl, ArcIndex.arcsTo_remove (h.valid i hi).1]
  simp only [show (s.cell t).key = s.keyOf t' ↔ t = t' from keyOf_eq_iff hp ht ht']
  split <;> rfl

theorem Took.counted (w : s.Took i t arc s') (h : s.Paired agree) (hp : s.Placed)
    (hi : s.Live i) (ht : s.Live t) {t' : CellId} (ht' : s.Live t') :
    (s'.data t').forwardOnlyIn = (s'.registered.map (s'.forwardOnlyTo t')).sum := by
  have hsum := sum_registered_update hp hi
    (v := s.forwardOnlyTo t') (w := s'.forwardOnlyTo t') (by
      intro c _ hne
      rw [Store.forwardOnlyTo, Store.forwardOnlyTo, w.data, dataWithout, w.keyOf]
      simp [hne])
  have htake := Slots.countP_remove (·.forwardOnly) arc.relationship arc.kind
    ((s.data i).out.arcsTo (s.keyOf t))
  have hat : Slots.find? arc.relationship arc.kind ((s.data i).out.arcsTo (s.keyOf t)) =
    some arc := w.found
  have hcount := h.counted t' ht'
  rw [w.frame.registered, w.data, dataWithout]
  dsimp only
  rw [hat, Option.map_some, Option.getD_some] at htake
  rw [w.forwardOnlyTo h hp hi ht ht'] at hsum
  by_cases htt : t = t'
  · subst htt
    have hold : s.forwardOnlyTo t i =
      ((s.data i).out.arcsTo (s.keyOf t)).countP (·.forwardOnly) := rfl
    rw [if_pos rfl] at hsum
    cases hf : arc.forwardOnly
    · rw [if_neg (by simp)]
      rw [hf, Bool.toNat_false] at htake
      omega
    · rw [if_pos ⟨rfl, rfl⟩]
      rw [hf, Bool.toNat_true] at htake
      omega
  · rw [if_neg htt] at hsum
    rw [if_neg fun e => htt e.1]
    omega

theorem Took.size_eq_sum (w : s.Took i t arc s') (h : s.Paired agree) (hp : s.Placed)
    (hi : s.Live i) : s'.size = (s'.registered.map fun c => (s'.data c).out.size).sum := by
  have hsum := sum_registered_update hp hi
    (v := fun c => (s.data c).out.size) (w := fun c => (s'.data c).out.size) (by
      intro c _ hne
      rw [w.data, dataWithout]
      simp [hne])
  have hsize := ArcIndex.size_remove (h.valid i hi).1 (s.cell t).key arc.relationship arc.kind
  have hat : (s.data i).out.get? (s.cell t).key arc.relationship arc.kind = some arc := w.found
  rw [hat, Option.isSome_some, Bool.toNat_true] at hsize
  have hnew : (s'.data i).out.size =
      ((s.data i).out.remove (s.cell t).key arc.relationship arc.kind).2.size := by
    rw [w.data, dataWithout]
    simp
  have hold := h.size
  rw [hnew] at hsum
  rw [w.frame.registered, w.size]
  omega

theorem paired_took (w : s.Took i t arc s') (h : s.Paired agree) (hp : s.Placed)
    (hi : s.Live i) (ht : s.Live t) : s'.Paired agree := by
  have hlive : ∀ {c}, s'.Live c → s.Live c := w.frame.live_iff.1
  refine ⟨fun c hc => w.valid h (hlive hc), fun c hc n hn => ?_, fun i' t' hi' ht' => ?_,
    fun c hc n a ha => ?_, fun t' ht' => ?_, w.size_eq_sum h hp hi⟩
  · have hold : (s.data c).out.arcsTo n ≠ [] ∨ (s.data c).inbound.arcsTo n ≠ [] := by
      rcases hn with hn | hn
      · obtain ⟨a, ha⟩ := List.exists_mem_of_ne_nil _ hn
        exact .inl (List.ne_nil_of_mem (w.mem_out h hi ha))
      · obtain ⟨a, ha⟩ := List.exists_mem_of_ne_nil _ hn
        exact .inr (List.ne_nil_of_mem (w.mem_inbound h ht ha))
    obtain ⟨m, hm, hk⟩ := h.known c (hlive hc) n hold
    exact ⟨m, w.frame.live_iff.2 hm, (w.keyOf m).trans hk⟩
  · exact w.mirror h hp hi ht (hlive hi') (hlive ht')
  · exact h.regular c (hlive hc) n a (w.mem_inbound h ht ha)
  · exact w.counted h hp hi ht (hlive ht')

end Take

end Arcbase.Store
