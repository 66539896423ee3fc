import Arcbase.Proofs.Store.SingleArc
import Mathlib.Logic.Relation
set_option autoImplicit false

/-!
# What a store does step by step

Every operation on a store is a sequence of the eight steps below.  A step says which
cells it writes, and they must be among those that the operation may write, a
parameter `W`.  What every step keeps is proved here once:

* `Steps.sound`: the table stays in order and both sides of every arc stay paired;
* `Steps.extends`: no cell goes away or changes its identity;
* `Steps.untouched`: a vertex outside `W` stays in the graph, with all its data.
-/

namespace Arcbase.Store

/-- A change of the data of a vertex that leaves its arcs alone, and when it was created. -/
def KeepsArcs (f : VertexData → VertexData) : Prop :=
  ∀ d, (f d).out = d.out ∧ (f d).inbound = d.inbound ∧
    (f d).forwardOnlyIn = d.forwardOnlyIn ∧ (f d).deleted = d.deleted ∧
      (f d).created = d.created

theorem KeepsArcs.sameFrame {f : VertexData → VertexData} (h : KeepsArcs f) (s : Store)
    (c : CellId) : s.SameFrame (s.modifyData c f) :=
  sameFrame_modifyData s c fun d => (h d).2.2.2.1

/-- One step of an operation that may write the cells in `W`. -/
inductive Step (W : CellId → Prop) : Store → Store → Prop where
  | locks (s : Store) (locks : LockTable) : Step W s { s with locks }
  | labels (s : Store) (labels : Labels) : Step W s { s with labels }
  | schedule (s : Store) (schedule : Schedule) : Step W s { s with schedule }
  | attributes {s : Store} {c : CellId} {f : VertexData → VertexData} (owned : W c)
      (keeps : KeepsArcs f) : Step W s (s.modifyData c f)
  | add {s : Store} {new : Cell} (fresh : s.lookupKey new.key = none)
      (keyed : new.key = .of new.id) (kept : new.data.deleted = false) (bare : Bare new.data) :
      Step W s (s.addCell new)
  | remove {s : Store} {c : CellId} (owned : W c) (live : s.Live c)
      (bare : (s.data c).degree = 0) : Step W s (s.remove c)
  | put {s : Store} {i t : CellId} (ownedInitial : W i) (ownedTerminal : W t)
      (liveInitial : s.Live i) (liveTerminal : s.Live t) (relationship : LabelCode)
      (kind : ArcKind) (forwardOnly : Bool) (u : ArcUpdate) (now : UInt32) :
      Step W s (s.putArc i t relationship kind forwardOnly u now).2
  | detach {s : Store} {i t : CellId} {arc removed : StoredArc} (ownedInitial : W i)
      (ownedTerminal : W t) (liveInitial : s.Live i) (liveTerminal : s.Live t)
      (found : s.arcAt? i t arc.relationship arc.kind = some removed) :
      Step W s { (s.detach i t arc).2 with size := s.size - 1 }

/-- Any number of steps. -/
abbrev Steps (W : CellId → Prop) : Store → Store → Prop := Relation.ReflTransGen (Step W)

variable {W : CellId → Prop} {agree : Agreement} {s s' : Store}

theorem Step.steps (h : Step W s s') : Steps W s s' := .single h

/-! ## The structure of the graph -/

/-- The table is in order, and the two sides of every arc are paired. -/
structure Sound (agree : Agreement) (s : Store) : Prop where
  placed : s.Placed
  paired : s.Paired agree

theorem sound_new (config : Config) (labels : Labels) : (new config labels).Sound agree :=
  ⟨placed_new config labels, paired_new config labels⟩

theorem paired_of_cells (h : s.Paired agree) (ht : s'.table = s.table) (hc : s'.cells = s.cells)
    (hs : s'.size = s.size) : s'.Paired agree := by
  have hdata : ∀ c, s'.data c = s.data c := fun c => by simp only [data, cell, hc]
  exact paired_congr h (sameFrame_of_cells ht hc) hs (fun c => by rw [hdata])
    (fun c => by rw [hdata]) (fun c => by rw [hdata])

theorem Step.placed (st : Step W s s') (hp : s.Placed) : s'.Placed := by
  cases st with
  | locks => exact placed_of_sameFrame hp (sameFrame_of_cells rfl rfl)
  | labels => exact placed_of_sameFrame hp (sameFrame_of_cells rfl rfl)
  | schedule => exact placed_of_sameFrame hp (sameFrame_of_cells rfl rfl)
  | attributes _ keeps =>
    exact placed_of_sameFrame hp (keeps.sameFrame s _)
  | add fresh keyed kept => exact placed_addCell hp kept keyed fresh
  | remove _ live => exact placed_remove hp live
  | put => exact placed_of_sameFrame hp (sameFrame_putArc ..)
  | detach =>
    exact placed_of_sameFrame hp ((sameFrame_detach ..).trans (sameFrame_of_cells rfl rfl))

theorem Step.sound (st : Step W s s') (h : s.Sound agree) :
    s'.Sound agree := by
  refine ⟨st.placed h.placed, ?_⟩
  obtain ⟨hp, hpair⟩ := h
  cases st with
  | locks => exact paired_of_cells hpair rfl rfl rfl
  | labels => exact paired_of_cells hpair rfl rfl rfl
  | schedule => exact paired_of_cells hpair rfl rfl rfl
  | attributes _ keeps =>
    exact paired_modifyData hpair _ fun d =>
      ⟨(keeps d).1, (keeps d).2.1, (keeps d).2.2.1, (keeps d).2.2.2.1⟩
  | add fresh _ kept bare => exact paired_addCell hpair hp kept fresh bare
  | remove _ live bare => exact paired_remove hpair hp live ((hpair.bare_iff live).1 bare)
  | put _ _ liveInitial liveTerminal relationship kind forwardOnly u now =>
    have w := wrote_putArc liveInitial liveTerminal relationship kind forwardOnly u now
    exact paired_wrote w hpair hp liveInitial liveTerminal
  | detach _ _ liveInitial liveTerminal found =>
    have w := took_detach liveInitial liveTerminal found
    exact paired_took w hpair hp liveInitial liveTerminal

theorem Steps.placed (st : Steps W s s') (hp : s.Placed) : s'.Placed := by
  induction st with
  | refl => exact hp
  | tail _ st ih => exact st.placed ih

theorem Steps.sound (st : Steps W s s') (h : s.Sound agree) :
    s'.Sound agree := by
  induction st with
  | refl => exact h
  | tail _ st ih => exact st.sound ih

/-- Neither locks nor labels are part of what makes a store sound. -/
theorem Sound.withLocks (h : s.Sound agree) (locks : LockTable) : Sound agree { s with locks } :=
  (Step.locks (W := fun _ => True) s locks).sound h

theorem Sound.withLabels (h : s.Sound agree) (labels : Labels) : Sound agree { s with labels } :=
  (Step.labels (W := fun _ => True) s labels).sound h

/-! ## Identities -/

/-- The cells of one store are cells of another one, under the same names. -/
structure Extends (s s' : Store) : Prop where
  count : s.cells.size ≤ s'.cells.size
  id : ∀ c, c < s.cells.size → (s'.cell c).id = (s.cell c).id
  key : ∀ c, c < s.cells.size → (s'.cell c).key = (s.cell c).key

theorem Extends.refl (s : Store) : s.Extends s := ⟨Nat.le_refl _, fun _ _ => rfl, fun _ _ => rfl⟩

theorem Extends.trans {s'' : Store} (h : s.Extends s') (h' : s'.Extends s'') : s.Extends s'' :=
  ⟨Nat.le_trans h.count h'.count,
    fun c hc => (h'.id c (Nat.lt_of_lt_of_le hc h.count)).trans (h.id c hc),
    fun c hc => (h'.key c (Nat.lt_of_lt_of_le hc h.count)).trans (h.key c hc)⟩

theorem SameFrame.extends (h : s.SameFrame s') : s.Extends s' :=
  ⟨Nat.le_of_eq h.count.symm, fun c _ => h.id c, fun c _ => h.key c⟩

theorem extends_addCell (s : Store) (new : Cell) : s.Extends (s.addCell new) := by
  refine ⟨by rw [size_cells_addCell]; exact Nat.le_succ _, ?_, ?_⟩
  · intro c hc
    rw [cell_addCell, if_neg (Nat.ne_of_lt hc)]
  · intro c hc
    rw [cell_addCell, if_neg (Nat.ne_of_lt hc)]

theorem extends_remove (s : Store) (c : CellId) : s.Extends (s.remove c) := by
  refine ⟨Nat.le_of_eq ?_, ?_, ?_⟩
  · rw [Store.remove, cells_unlink, size_cells_modifyData]
  · intro c' _
    rw [cell_remove, cell_modifyData]
    split <;> rfl
  · intro c' _
    rw [cell_remove, cell_modifyData]
    split <;> rfl

theorem Step.extends (st : Step W s s') : s.Extends s' := by
  cases st with
  | locks => exact SameFrame.extends (sameFrame_of_cells rfl rfl)
  | labels => exact SameFrame.extends (sameFrame_of_cells rfl rfl)
  | schedule => exact SameFrame.extends (sameFrame_of_cells rfl rfl)
  | attributes _ keeps => exact (keeps.sameFrame s _).extends
  | add => exact extends_addCell ..
  | remove => exact extends_remove ..
  | put => exact (sameFrame_putArc ..).extends
  | detach => exact SameFrame.extends ((sameFrame_detach ..).trans (sameFrame_of_cells rfl rfl))

theorem Steps.extends (st : Steps W s s') : s.Extends s' := by
  induction st with
  | refl => exact .refl s
  | tail _ st ih => exact ih.trans st.extends

/-! ## Vertices that may not be written -/

/-- A vertex is in the graph as before, with all its data. -/
structure Unchanged (s s' : Store) (v : CellId) : Prop where
  data : s'.data v = s.data v
  lookup : s'.lookupKey (s.keyOf v) = some v

/-- A cell that may not be written keeps its data, in the graph or not. -/
theorem Step.data_eq (st : Step W s s') {v : CellId} (hv : ¬ W v) (hlt : v < s.cells.size) :
    s'.data v = s.data v := by
  have hne : ∀ {c}, W c → c ≠ v := fun hc e => hv (e ▸ hc)
  cases st with
  | locks => rfl
  | labels => rfl
  | schedule => rfl
  | attributes owned => rw [data_modifyData_ite, if_neg fun e => hne owned e.1]
  | add fresh =>
    rw [Store.data, cell_addCell, if_neg (Nat.ne_of_lt hlt)]
    rfl
  | remove owned live => exact (data_remove_of_ne (hne owned)).1
  | put ownedInitial ownedTerminal liveInitial liveTerminal =>
    rw [data_putArc _ _ _ _ _ liveInitial.1 liveTerminal.1, dataWith]
    simp [hne ownedInitial, hne ownedTerminal]
  | detach ownedInitial ownedTerminal liveInitial liveTerminal found =>
    refine (data_detach liveInitial.1 liveTerminal.1 found v).trans ?_
    rw [dataWithout]
    simp [hne ownedInitial, hne ownedTerminal]

theorem Steps.data_eq (st : Steps W s s') {v : CellId} (hv : ¬ W v) (hlt : v < s.cells.size) :
    s'.data v = s.data v := by
  induction st with
  | refl => rfl
  | tail hst st ih =>
    exact (st.data_eq hv (Nat.lt_of_lt_of_le hlt (Steps.extends hst).count)).trans ih

theorem Step.mono {W' : CellId → Prop} (st : Step W s s') (h : ∀ c, W c → W' c) : Step W' s s' := by
  cases st with
  | locks => exact .locks ..
  | labels => exact .labels ..
  | schedule => exact .schedule ..
  | attributes owned keeps => exact .attributes (h _ owned) keeps
  | add fresh keyed kept bare => exact .add fresh keyed kept bare
  | remove owned live bare => exact .remove (h _ owned) live bare
  | put owned owned' live live' => exact .put (h _ owned) (h _ owned') live live' ..
  | detach owned owned' live live' found =>
    exact .detach (h _ owned) (h _ owned') live live' found

theorem Steps.mono {W' : CellId → Prop} (st : Steps W s s') (h : ∀ c, W c → W' c) :
    Steps W' s s' := by
  induction st with
  | refl => exact .refl
  | tail _ st ih => exact ih.tail (st.mono h)

theorem Step.untouched (st : Step W s s') (hp : s.Placed) {v : CellId} (hv : ¬ W v)
    (hl : s.Live v) : s.Unchanged s' v := by
  have hkey : s.lookupKey (s.keyOf v) = some v := hp.lookup_key hl
  refine ⟨st.data_eq hv hl.1, ?_⟩
  cases st with
  | locks => exact hkey
  | labels => exact hkey
  | schedule => exact hkey
  | attributes => exact hkey
  | add fresh =>
    rw [lookupKey_addCell, if_neg, hkey]
    intro e
    rw [e, hkey] at fresh
    cases fresh
  | remove owned live =>
    rw [lookupKey_remove hp live, if_neg, hkey]
    exact fun e => hv (hp.eq_of_key live hl e ▸ owned)
  | put => rw [(sameFrame_putArc ..).lookupKey, hkey]
  | detach => exact ((sameFrame_detach ..).lookupKey _).trans hkey

theorem Unchanged.live {v : CellId} (h : s.Unchanged s' v) (hp : s'.Placed) : s'.Live v :=
  hp.live_of_lookup h.lookup

theorem Unchanged.keyOf {v : CellId} (h : s.Unchanged s' v) (hp : s'.Placed) :
    s'.keyOf v = s.keyOf v := hp.key_of_lookup h.lookup

theorem Steps.untouched (st : Steps W s s') (hp : s.Placed) {v : CellId} (hv : ¬ W v)
    (hl : s.Live v) : s.Unchanged s' v := by
  induction st with
  | refl => exact ⟨rfl, hp.lookup_key hl⟩
  | tail hst st ih =>
    have hp' := Steps.placed hst hp
    have hlast := st.untouched hp' hv (ih.live hp')
    exact ⟨hlast.data.trans ih.data, ih.keyOf hp' ▸ hlast.lookup⟩

end Arcbase.Store
