import Arcbase.Proofs.Scene.Moves
set_option autoImplicit false

/-!
# What is written while a graph is in use

A move adds one arc at most, and only one that the store admits: its relationship has a
name, its kind allows its value, and it is forward-only as the other arcs toward its
terminal are (`Move.arcs`).  From that, what holds of all stored arcs stays so: forward-only
and regular arcs do not meet (`Exclusive`), all values are allowed (`Valued`), and all
relationships are named (`Named`).
-/

namespace Arcbase

namespace Store

/-- No vertex is the terminal of a forward-only and of a regular arc. -/
def Exclusive (s : Store) : Prop :=
  ∀ p ∈ s.arcs, ∀ q ∈ s.arcs, p.terminal = q.terminal → p.arc.forwardOnly = q.arc.forwardOnly

/-- Every stored value is one of its kind. -/
def Valued (s : Store) : Prop := ∀ p ∈ s.arcs, p.arc.kind.allows p.arc.value = true

/-- Labels and codes stand for each other, and every stored code for a label. -/
structure Named (s : Store) : Prop where
  valid : s.labels.relationships.Valid
  arcs : ∀ p ∈ s.arcs, ∃ label, s.labels.relationships.decode? p.arc.relationship = some label

/-- An arc that may be stored next to those that are there. -/
structure Admits (s : Store) (p : PlacedArc) : Prop where
  named : ∃ label, s.labels.relationships.decode? p.arc.relationship = some label
  value : s.Valued → p.arc.kind.allows p.arc.value = true
  alike : ∀ q ∈ s.arcs, q.terminal = p.terminal → q.arc.forwardOnly = p.arc.forwardOnly

variable {agree : Agreement} {s s' : Store}

/-- Vertices that keep their outbound arcs, or have none, bring no arcs. -/
theorem arcs_subset_of_out (hp : s.Placed) (hp' : s'.Placed) (he : s.Extends s')
    (hout : ∀ c, s'.Live c →
      (s'.data c).out = .empty ∨ s.Live c ∧ (s'.data c).out = (s.data c).out) :
    ∀ p ∈ s'.arcs, p ∈ s.arcs := by
  intro p hm
  obtain ⟨c, hc, hk, ha⟩ := (mem_arcs_iff hp').1 hm
  rcases hout c hc with hnone | ⟨hlive, hsame⟩
  · rw [hnone] at ha
    exact absurd ha List.not_mem_nil
  · refine (mem_arcs_iff hp).2 ⟨c, hlive, ?_, hsame ▸ ha⟩
    exact (he.key c hlive.1).symm.trans hk

theorem arcAt?_mem_arcs (hs : s.Sound agree) {i t : CellId} (hi : s.Live i)
    {relationship : LabelCode} {kind : ArcKind} {a : StoredArc}
    (ha : s.arcAt? i t relationship kind = some a) : ⟨s.keyOf i, s.keyOf t, a⟩ ∈ s.arcs :=
  (mem_arcs_iff hs.placed).2 ⟨i, hi, rfl, (ArcIndex.get?_slot ha).1⟩

/-- An arc that is stored from one vertex toward another. -/
theorem exists_arcAt? (hs : s.Sound agree) {p : PlacedArc} (hp : p ∈ s.arcs) :
    ∃ i t, s.Live i ∧ s.Live t ∧ s.keyOf i = p.initial ∧ s.keyOf t = p.terminal ∧
      s.arcAt? i t p.arc.relationship p.arc.kind = some p.arc := by
  obtain ⟨i, hi, hik, ha⟩ := (mem_arcs_iff hs.placed).1 hp
  obtain ⟨t, ht, htk⟩ := live_of_mem_arcs hs hp (.inr rfl)
  refine ⟨i, t, hi, ht, hik, htk, ?_⟩
  rw [arcAt?, show (s.cell t).key = p.terminal from htk]
  exact (ArcIndex.mem_arcsTo_iff (hs.paired.valid i hi).1 _ _).1 ha

/-! ## Writing an arc -/

/-- What is stored after one arc has been put in at its initial. -/
theorem InitialSide.mem_arcs {i t : CellId} {arc : StoredArc} (w : s.InitialSide i t arc s')
    (hplaced : s.Placed) (hi : s.Live i) {p : PlacedArc} (hp : p ∈ s'.arcs) :
    p ∈ s.arcs ∨ p = ⟨s.keyOf i, s.keyOf t, arc⟩ := by
  obtain ⟨c, hc, hk, ha⟩ := (mem_arcs_iff (placed_of_sameFrame hplaced w.frame)).1 hp
  rw [w.frame.live_iff] at hc
  rw [keyOf, w.frame.key] at hk
  rw [w.out] at ha
  split at ha
  next hic =>
    subst hic
    rw [ArcIndex.arcsTo_insert] at ha
    split at ha
    next hkt =>
      rcases Slots.mem_put ha with he | ha
      · exact .inr (PlacedArc.mk.injEq .. ▸ ⟨hk.symm, hkt.symm, he⟩)
      · exact .inl ((mem_arcs_iff hplaced).2 ⟨i, hi, hk, hkt ▸ ha⟩)
    next => exact .inl ((mem_arcs_iff hplaced).2 ⟨i, hi, hk, ha⟩)
  next => exact .inl ((mem_arcs_iff hplaced).2 ⟨c, hc, hk, ha⟩)

/-- One more arc that is of the sort of those toward its terminal. -/
theorem Exclusive.add (h : s.Exclusive) {new : PlacedArc}
    (hsub : ∀ p ∈ s'.arcs, p ∈ s.arcs ∨ p = new)
    (alike : ∀ q ∈ s.arcs, q.terminal = new.terminal → q.arc.forwardOnly = new.arc.forwardOnly) :
    s'.Exclusive := by
  intro p hp q hq he
  rcases hsub p hp with hp | rfl
  · rcases hsub q hq with hq | rfl
    · exact h p hp q hq he
    · exact alike p hp he
  · rcases hsub q hq with hq | rfl
    · exact (alike q hq he.symm).symm
    · rfl

/-- The arcs toward a vertex are inbound there, unless they are forward-only. -/
theorem inbound_isEmpty_iff (hs : s.Sound agree) {t : CellId} (ht : s.Live t) :
    (s.data t).inbound.isEmpty = true ↔
      ∀ p ∈ s.arcs, p.terminal = s.keyOf t → p.arc.forwardOnly = true := by
  rw [ArcIndex.isEmpty, beq_iff_eq]
  constructor
  · intro hzero p hp hterminal
    obtain ⟨i, t', hi, ht', _, hk, ha⟩ := exists_arcAt? hs hp
    obtain rfl := hs.placed.eq_of_key ht' ht (hk.trans hterminal)
    refine Bool.not_eq_false _ ▸ fun hf => ?_
    exact Nat.ne_of_gt (hs.paired.inbound_pos hi ht' ha hf) hzero
  · intro hall
    have hnone := ArcIndex.eq_empty_of_arcsTo (hs.paired.valid t ht).2 fun n b hb => ?_
    · rw [hnone]
      rfl
    · obtain ⟨i, hi, rfl⟩ := hs.paired.known t ht n (.inr (List.ne_nil_of_mem hb))
      obtain ⟨a, ha, hf, _⟩ := hs.paired.out_of_inward hi ht hb
      exact Bool.noConfusion (hf.symm.trans (hall _ (arcAt?_mem_arcs hs hi ha) rfl))

/-- The forward-only arcs toward a vertex are counted there. -/
theorem forwardOnlyIn_eq_zero_iff (hs : s.Sound agree) {t : CellId} (ht : s.Live t) :
    (s.data t).forwardOnlyIn = 0 ↔
      ∀ p ∈ s.arcs, p.terminal = s.keyOf t → p.arc.forwardOnly = false := by
  constructor
  · intro hzero p hp hterminal
    obtain ⟨i, t', hi, ht', _, hk, ha⟩ := exists_arcAt? hs hp
    obtain rfl := hs.placed.eq_of_key ht' ht (hk.trans hterminal)
    refine Bool.eq_false_iff.2 fun hf => ?_
    exact Nat.ne_of_gt (hs.paired.forwardOnlyIn_pos hs.placed hi ht' ha hf) hzero
  · intro hall
    rw [hs.paired.counted t ht, List.sum_eq_zero_iff_forall_eq_nat]
    intro n hn
    obtain ⟨i, hi, rfl⟩ := List.mem_map.1 hn
    refine List.countP_eq_zero.2 fun a ha hf => ?_
    have hp : (⟨s.keyOf i, s.keyOf t, a⟩ : PlacedArc) ∈ s.arcs :=
      (mem_arcs_iff hs.placed).2 ⟨i, (mem_registered_iff hs.placed).1 hi, rfl, ha⟩
    exact Bool.noConfusion (hf.symm.trans (hall _ hp rfl))

/-- All arcs toward a vertex are of the sort that it takes. -/
theorem Takes.forwardOnly_of_mem (hs : s.Sound agree) {t : CellId} {forwardOnly : Bool}
    (h : s.Takes t forwardOnly) (ht : s.Live t) {p : PlacedArc} (hp : p ∈ s.arcs)
    (hterminal : p.terminal = s.keyOf t) : p.arc.forwardOnly = forwardOnly := by
  cases forwardOnly with
  | true => exact (inbound_isEmpty_iff hs ht).1 (h.forward rfl) p hp hterminal
  | false => exact (forwardOnlyIn_eq_zero_iff hs ht).1 (h.regular rfl) p hp hterminal

/-- Vertices that have not both inbound arcs and a count are not terminals of both sorts. -/
theorem exclusive_of_unmixed (hs : s.Sound agree) (h : ∀ t, s.Live t →
    (s.data t).inbound.isEmpty = true ∨ (s.data t).forwardOnlyIn = 0) : s.Exclusive := by
  intro p hp q hq he
  obtain ⟨t, ht, hk⟩ := live_of_mem_arcs hs hp (.inr rfl)
  rcases h t ht with hnone | hzero
  · have hall := (inbound_isEmpty_iff hs ht).1 hnone
    rw [hall p hp hk.symm, hall q hq (he ▸ hk.symm)]
  · have hall := (forwardOnlyIn_eq_zero_iff hs ht).1 hzero
    rw [hall p hp hk.symm, hall q hq (he ▸ hk.symm)]

section Put

variable {i t : CellId} {relationship : LabelCode} {kind : ArcKind} {forwardOnly : Bool}
  {u : ArcUpdate} {now : UInt32}

/-- An arc that is written is of the sort that its terminal takes. -/
theorem Takes.forwardOnly_written (hs : s.Sound agree) (h : s.Takes t forwardOnly) (hi : s.Live i)
    (ht : s.Live t) :
    (s.writtenArc i t relationship kind forwardOnly u now).forwardOnly = forwardOnly := by
  rw [writtenArc]
  cases hold : s.arcAt? i t relationship kind with
  | none => rfl
  | some old => exact h.forwardOnly_of_mem hs ht (arcAt?_mem_arcs hs hi hold) rfl

/-- A write adds the one arc that it writes. -/
theorem mem_arcs_putArc (hs : s.Sound agree) (hi : s.Live i) (ht : s.Live t) {p : PlacedArc}
    (hp : p ∈ (s.putArc i t relationship kind forwardOnly u now).2.arcs) :
    p ∈ s.arcs ∨
      p = ⟨s.keyOf i, s.keyOf t, s.writtenArc i t relationship kind forwardOnly u now⟩ :=
  (wrote_putArc hi ht relationship kind forwardOnly u now).initialSide.mem_arcs hs.placed hi hp

theorem admits_written (hs : s.Sound agree) (hi : s.Live i) (ht : s.Live t)
    (named : ∃ label, s.labels.relationships.decode? relationship = some label)
    (fits : u.Fits kind) (takes : s.Takes t forwardOnly) :
    s.Admits ⟨s.keyOf i, s.keyOf t, s.writtenArc i t relationship kind forwardOnly u now⟩ := by
  refine ⟨named, fun hvalued => ?_, fun q hq he => ?_⟩
  · refine fits.allows_apply (fun v hv => ?_) now
    obtain ⟨old, hold, rfl⟩ := Option.map_eq_some_iff.1 hv
    obtain ⟨_, _, hkind⟩ := ArcIndex.get?_slot hold
    exact hkind ▸ hvalued _ (arcAt?_mem_arcs hs hi hold)
  · rw [takes.forwardOnly_of_mem hs ht hq he, takes.forwardOnly_written hs hi ht]

/-- What a vertex takes does not change when that is what is written. -/
theorem Takes.putArc (hs : s.Sound agree) (hi : s.Live i) (ht : s.Live t)
    (takes : s.Takes t forwardOnly) {t' : CellId} (h : s.Takes t' forwardOnly) :
    (s.putArc i t relationship kind forwardOnly u now).2.Takes t' forwardOnly := by
  have hflag : (s.writtenArc i t relationship kind forwardOnly u now).forwardOnly = forwardOnly :=
    takes.forwardOnly_written hs hi ht
  constructor
  · rintro rfl
    rw [data_putArc _ _ _ _ _ hi.1 ht.1, dataWith, hflag]
    simpa using h.forward rfl
  · rintro rfl
    rw [data_putArc _ _ _ _ _ hi.1 ht.1, dataWith, hflag]
    simpa using h.regular rfl

end Put

end Store

open Store

variable {D : String → Prop} {A : Prop} {agree : Agreement} {x y : Scene}

/-! ## Move by move -/

/-- A move adds one arc at most, and only one that the store admits. -/
theorem Move.arcs (m : Move D A x y) (hx : x.Ordered agree) :
    (∀ p ∈ y.store.arcs, p ∈ x.store.arcs) ∨ A ∧ ∃ new, x.store.Admits new ∧
      ∀ p ∈ y.store.arcs, p ∈ x.store.arcs ∨ p = new := by
  have st := m.steps hx
  have hs := hx.sound
  have hs' := (m.ordered hx).sound
  have hout : (∀ c, y.store.Live c → (y.store.data c).out = .empty ∨
      x.store.Live c ∧ (y.store.data c).out = (x.store.data c).out) →
      ∀ p ∈ y.store.arcs, p ∈ x.store.arcs :=
    arcs_subset_of_out hs.placed hs'.placed (Steps.extends st)
  cases m with
  | put now allowed initial terminal real named fits takes =>
    exact .inr ⟨allowed, _, admits_written hs initial terminal named fits takes,
      fun p hp => mem_arcs_putArc hs initial terminal hp⟩
  | attributes _ _ _ _ keeps =>
    refine .inl (hout fun c hc => .inr ⟨?_, ?_⟩)
    · exact (keeps.sameFrame _ _).live_iff.1 hc
    · rw [data_modifyData_ite]
      split
      · exact (keeps _).1
      · rfl
  | add fresh _ kept bare =>
    refine .inl (hout fun c hc => ?_)
    rcases (live_addCell_iff kept).1 hc with rfl | hc
    · exact .inl ((congrArg VertexData.out (data_addCell_new ..).1).trans bare.out)
    · exact .inr ⟨hc, congrArg VertexData.out (data_addCell_of_live hc).1⟩
  | give =>
    exact .inl (hout fun c hc => .inr ⟨((live_surrender_iff hx.guarded).1 hc).1,
      (fields_surrender hx.guarded c).1⟩)
  | @sever _ _ s s' _ _ _ _ n severed _ dates =>
    have hswept : Swept (fun _ => True) (fun _ => True) s (s'.less n) :=
      (severed.swept dates fun _ _ => .inl trivial).trans (swept_of_cells rfl rfl)
    exact .inl fun p hp => hswept.arcs_subset hs hs' hp
  | remove _ _ _ live =>
    refine .inl (hout fun c hc => .inr ⟨(live_remove_iff.1 hc).1, ?_⟩)
    rw [data, cell_remove, cell_modifyData]
    split <;> rfl
  | demote _ _ _ live =>
    refine .inl (hout fun c hc => .inr ⟨?_, ?_⟩)
    · exact (sameFrame_modifyData (f := fun d =>
        { d with manifestation := .virtual, expires := none }) _ _ fun _ => rfl).live_iff.1 hc
    · rw [data_modifyData_ite]
      split <;> rfl
  | _ => exact .inl (hout fun c hc => .inr ⟨hc, rfl⟩)

/-- Without leave to write, no arc comes. -/
theorem Moves.arcs_subset (m : Moves D A x y) (hx : x.Ordered agree) (hA : ¬ A) :
    ∀ p ∈ y.store.arcs, p ∈ x.store.arcs := by
  induction m with
  | refl => exact fun _ hp => hp
  | tail hm m ih =>
    rcases m.arcs (Moves.ordered hm hx) with hsub | ⟨allowed, _⟩
    · exact fun p hp => ih p (hsub p hp)
    · exact absurd allowed hA

/-- On the inbound side too an arc comes only where one is written. -/
theorem Move.inward (m : Move D A x y) (hx : x.Ordered agree) : x.store.FewerInward y.store ∨
    A ∧ ∃ i t relationship kind forwardOnly u now, x.store.Live i ∧ x.store.Live t ∧
      x.store.Admits ⟨x.store.keyOf i, x.store.keyOf t,
        x.store.writtenArc i t relationship kind forwardOnly u now⟩ ∧
      y.store = (x.store.putArc i t relationship kind forwardOnly u now).2 := by
  cases m with
  | put now allowed initial terminal _ named fits takes =>
    exact .inr ⟨allowed, _, _, _, _, _, _, now, initial, terminal,
      admits_written hx.sound initial terminal named fits takes, rfl⟩
  | attributes _ _ _ _ keeps =>
    refine .inl (fewerInward_of_eq fun c => ?_)
    rw [data_modifyData_ite]
    split
    · exact (keeps _).2.1
    · rfl
  | add _ _ _ bare =>
    left
    intro c n a ha
    rw [data, cell_addCell] at ha
    split at ha
    · rw [bare.inbound] at ha
      exact absurd ha List.not_mem_nil
    · exact ha
  | give => exact .inl (fewerInward_of_eq fun c => (fields_surrender hx.guarded c).2.1)
  | sever severed => exact .inl severed.inward
  | remove =>
    refine .inl (fewerInward_of_eq fun c => ?_)
    rw [data, cell_remove, cell_modifyData]
    split <;> rfl
  | demote =>
    refine .inl (fewerInward_of_eq fun c => ?_)
    rw [data_modifyData_ite]
    split <;> rfl
  | _ => exact .inl (fewerInward_of_eq fun _ => rfl)

theorem Moves.fewerInward (m : Moves D A x y) (hx : x.Ordered agree) (hA : ¬ A) :
    x.store.FewerInward y.store := by
  induction m with
  | refl => exact fewerInward_of_eq fun _ => rfl
  | tail hm m ih =>
    rcases m.inward (Moves.ordered hm hx) with hfewer | ⟨allowed, _⟩
    · exact ih.trans hfewer
    · exact absurd allowed hA

theorem Move.exclusive (m : Move D A x y) (hx : x.Ordered agree) (h : x.store.Exclusive) :
    y.store.Exclusive := by
  rcases m.arcs hx with hsub | ⟨_, new, hadmits, hsub⟩
  · exact fun p hp q hq => h p (hsub p hp) q (hsub q hq)
  · exact h.add hsub hadmits.alike

theorem Move.valued (m : Move D A x y) (hx : x.Ordered agree) (h : x.store.Valued) :
    y.store.Valued := by
  rcases m.arcs hx with hsub | ⟨_, new, hadmits, hsub⟩
  · exact fun p hp => h p (hsub p hp)
  · intro p hp
    rcases hsub p hp with hp | rfl
    · exact h p hp
    · exact hadmits.value h

theorem Move.named (m : Move D A x y) (hx : x.Ordered agree) (h : x.store.Named) :
    y.store.Named := by
  have hgrows := m.grows
  have hkept : ∀ p ∈ x.store.arcs, ∃ label,
      y.store.labels.relationships.decode? p.arc.relationship = some label := fun p hp => by
    obtain ⟨label, hlabel⟩ := h.arcs p hp
    exact ⟨label, hgrows.keeps _ _ hlabel⟩
  refine ⟨hgrows.valid h.valid, ?_⟩
  rcases m.arcs hx with hsub | ⟨_, new, hadmits, hsub⟩
  · exact fun p hp => hkept p (hsub p hp)
  · intro p hp
    rcases hsub p hp with hp | rfl
    · exact hkept p hp
    · obtain ⟨label, hlabel⟩ := hadmits.named
      exact ⟨label, hgrows.keeps _ _ hlabel⟩

/-- Every identifier in a graph is sound. -/
def Store.WellNamed (s : Store) : Prop :=
  ∀ c, c < s.cells.size → s.identifierFault? (s.cell c).id = none

theorem Move.wellNamed (m : Move D A x y) (hx : x.Ordered agree) (h : x.store.WellNamed) :
    y.store.WellNamed := by
  have st := m.steps hx
  have hext := Steps.extends st
  have hfault : ∀ id, y.store.identifierFault? id = x.store.identifierFault? id := fun id => by
    rw [identifierFault?, identifierFault?, Steps.config st]
  have hold : y.store.cells.size = x.store.cells.size → y.store.WellNamed := by
    intro hsize c hc
    rw [hsize] at hc
    rw [hfault, hext.id c hc]
    exact h c hc
  cases m with
  | @add G F F' s new _ _ _ _ named =>
    intro c hc
    rw [hfault]
    by_cases hnew : c = s.cells.size
    · rw [cell_addCell, if_pos hnew]
      exact named
    · rw [size_cells_addCell] at hc
      have hlt : c < s.cells.size := by omega
      rw [hext.id c hlt]
      exact h c hlt
  | attributes => exact hold (size_cells_modifyData ..)
  | demote => exact hold (size_cells_modifyData ..)
  | put => exact hold (sameFrame_putArc ..).count
  | give =>
    refine hold ?_
    rw [surrender]
    split
    · exact size_cells_collectOrphan ..
    · rfl
  | sever _ _ dates => exact hold dates.count
  | remove => exact hold (sameDates_remove ..).count
  | _ => exact hold rfl

/-- What holds of all that is stored while a graph is in use. -/
structure Store.Lawful (s : Store) : Prop where
  exclusive : s.Exclusive
  valued : s.Valued
  named : s.Named
  wellNamed : s.WellNamed

theorem Moves.lawful (m : Moves D A x y) (hx : x.Ordered agree) (h : x.store.Lawful) :
    y.store.Lawful := by
  induction m with
  | refl => exact h
  | tail hm m ih =>
    have hordered := Moves.ordered hm hx
    exact ⟨m.exclusive hordered ih.exclusive, m.valued hordered ih.valued,
      m.named hordered ih.named, m.wellNamed hordered ih.wellNamed⟩

theorem Moves.exclusive (m : Moves D A x y) (hx : x.Ordered agree) (h : x.store.Exclusive) :
    y.store.Exclusive := by
  induction m with
  | refl => exact h
  | tail hm m ih => exact m.exclusive (Moves.ordered hm hx) ih

end Arcbase
