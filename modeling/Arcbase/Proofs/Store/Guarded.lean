import Arcbase.Proofs.Lock.Requests
import Arcbase.Proofs.Store.Step
set_option autoImplicit false

/-!
# Stores that account for guards

A store accounts for a list of guards if its lock table does and every guard is on a
cell of the store.  Growing keeps that, for cells keep their identities.  Giving a
guard up takes a vertex out of the graph only if the guard is a writer's last one
(`drop_spec`).
-/

namespace Arcbase

namespace Store

/-- The locks account for the guards, which are on cells of the store. -/
structure Guarded (s : Store) (G : List Guard) : Prop where
  accounts : s.locks.Accounts G
  item : ∀ g ∈ G, g.item.slot < s.cells.size ∧ g.item = s.lockItem g.item.slot

variable {s s' : Store} {G G' : List Guard}

theorem guarded_new (config : Config) (labels : Labels) : (new config labels).Guarded [] :=
  ⟨LockTable.accounts_new .., fun _ hg => absurd hg List.not_mem_nil⟩

theorem Extends.lockItem (h : s.Extends s') {c : CellId} (hc : c < s.cells.size) :
    s'.lockItem c = s.lockItem c := by
  rw [Store.lockItem, Store.lockItem, h.id c hc, h.key c hc]

theorem Guarded.transfer (h : s.Guarded G) (he : s.Extends s') (ha : s'.locks.Accounts G')
    (hsub : ∀ g ∈ G', g ∈ G) : s'.Guarded G' := by
  refine ⟨ha, fun g hg => ?_⟩
  obtain ⟨hlt, hitem⟩ := h.item g (hsub g hg)
  exact ⟨Nat.lt_of_lt_of_le hlt he.count, hitem.trans (he.lockItem hlt).symm⟩

theorem Guarded.steps (h : s.Guarded G) {W : CellId → Prop} (st : Steps W s s')
    (hl : s'.locks = s.locks) : s'.Guarded G :=
  h.transfer st.extends (hl ▸ h.accounts) fun _ hg => hg

theorem Guarded.perm (h : s.Guarded G) (p : G.Perm G') : s.Guarded G' :=
  h.transfer (.refl s) (h.accounts.perm p) fun _ hg => p.mem_iff.2 hg

/-- A guard that is taken is one more. -/
theorem Guarded.acquire (h : s.Guarded G) {me : Thread} {c : CellId} {mode : LockMode} {g : Guard}
    {t : LockTable} (hc : c < s.cells.size)
    (ha : s.locks.acquire me (s.lockItem c) mode = .ok (g, t)) :
    Guarded { s with locks := t } (g :: G) := by
  have hitem : g.item = s.lockItem c := (LockTable.acquire_ok ha).2.1
  have hslot : g.item.slot = c := congrArg LockItem.slot hitem
  refine ⟨LockTable.accounts_acquire h.accounts ha, fun g' hm => ?_⟩
  rcases List.mem_cons.1 hm with rfl | hm
  · rw [hslot]
    exact ⟨hc, hitem⟩
  · exact h.item g' hm

/-- Cells with vertices that are in the graph. -/
def AllLive (cs : List CellId) (s : Store) : Prop := ∀ c ∈ cs, s.Live c

theorem allLive_nil : AllLive [] s := fun _ hc => absurd hc List.not_mem_nil

theorem allLive_cons {c : CellId} {cs : List CellId} :
    AllLive (c :: cs) s ↔ s.Live c ∧ AllLive cs s := List.forall_mem_cons

theorem SameFrame.allLive (h : s.SameFrame s') {cs : List CellId} (hl : AllLive cs s) :
    AllLive cs s' := fun c hc => h.live_iff.2 (hl c hc)

/-! ## Giving a guard up -/

theorem locks_remove (s : Store) (c : CellId) : (s.remove c).locks = s.locks := by
  simp only [remove, unlink]
  split <;> rfl

theorem steps_collectOrphan {W : CellId → Prop} {c : CellId} (hW : W c)
    (hc : c < s.cells.size) :
    Steps W s (s.collectOrphan c) ∧ (s.collectOrphan c).locks = s.locks := by
  unfold collectOrphan
  split
  next h =>
    simp only [VertexData.isOrphan, Bool.and_eq_true, Bool.not_eq_true', beq_iff_eq] at h
    exact ⟨.single (.remove hW ⟨hc, h.1.1⟩ h.2), locks_remove s c⟩
  next => exact ⟨.refl, rfl⟩

/-- Giving a guard up may take a vertex out of the graph only if the guard is a
writer's. -/
theorem drop_spec {W : CellId → Prop} {g : Guard} (h : s.Guarded (g :: G))
    (hW : g.hold = .writer → W g.item.slot) :
    Steps W s (s.drop g) ∧ (s.drop g).Guarded G := by
  have hsub : ∀ g' ∈ G, g' ∈ g :: G := fun g' hm => List.mem_cons_of_mem g hm
  have hcollected : ∀ s₁ : Store, Steps W s s₁ → s₁.locks = s.locks →
      Steps W s { s₁ with locks := s₁.locks.release g } ∧
        Guarded { s₁ with locks := s₁.locks.release g } G := by
    intro s₁ st hl
    have hall := st.tail (.locks s₁ (s₁.locks.release g))
    refine ⟨hall, h.transfer (Steps.extends hall) ?_ hsub⟩
    change (s₁.locks.release g).Accounts G
    rw [hl]
    exact LockTable.accounts_release h.accounts
  unfold drop
  by_cases hlast : (g.isWritable && s.locks.isOutermost g) = true
  · have hhold : g.hold = .writer := by
      simp only [Bool.and_eq_true, Guard.isWritable, beq_iff_eq] at hlast
      exact hlast.1
    obtain ⟨st, hl⟩ := steps_collectOrphan (hW hhold) (h.item g List.mem_cons_self).1
    simp only [hlast, if_true]
    exact hcollected _ st hl
  · simp only [hlast, if_false, Bool.false_eq_true]
    exact hcollected s .refl rfl

theorem locks_collectOrphan (s : Store) (c : CellId) : (s.collectOrphan c).locks = s.locks := by
  rw [collectOrphan]
  split
  · exact locks_remove s c
  · rfl

theorem locks_drop (s : Store) (g : Guard) : (s.drop g).locks = s.locks.release g := by
  rw [drop]
  split
  · exact congrArg (LockTable.release · g) (locks_collectOrphan s _)
  · rfl

theorem sound_collectOrphan {agree : Agreement} (hs : s.Sound agree) (c : CellId) :
    (s.collectOrphan c).Sound agree := by
  by_cases hc : c < s.cells.size
  · exact Steps.sound (steps_collectOrphan (W := fun _ => True) trivial hc).1 hs
  · have hnone : (s.data c).isOrphan = false := by
      rw [data_of_size_le (Nat.le_of_not_lt hc)]
      rfl
    rw [collectOrphan, hnone]
    exact hs

theorem sound_drop {agree : Agreement} (hs : s.Sound agree) (g : Guard) :
    (s.drop g).Sound agree := by
  have hcollected : Sound agree
      (if g.isWritable && s.locks.isOutermost g then s.collectOrphan g.item.slot else s) := by
    split
    · exact sound_collectOrphan hs _
    · exact hs
  exact hcollected.withLocks _

theorem dropAll_spec {W : CellId → Prop} {new : List Guard} (h : s.Guarded (new ++ G))
    (hW : ∀ g ∈ new, g.hold = .writer → W g.item.slot) :
    Steps W s (s.dropAll new) ∧ (s.dropAll new).Guarded G := by
  induction new generalizing s with
  | nil => exact ⟨.refl, h⟩
  | cons g rest ih =>
    obtain ⟨st, hg⟩ := drop_spec h (hW g List.mem_cons_self)
    obtain ⟨st', hg'⟩ := ih hg fun g' hm => hW g' (List.mem_cons_of_mem g hm)
    exact ⟨st.trans st', hg'⟩

theorem data_collectOrphan {c : CellId} (hc : c < s.cells.size) (c' : CellId) :
    (s.collectOrphan c).data c' =
      if c = c' ∧ (s.data c).isOrphan = true then { s.data c' with deleted := true }
      else s.data c' := by
  unfold collectOrphan
  by_cases ho : (s.data c).isOrphan = true
  · rw [if_pos ho, data, cell_remove, cell_modifyData]
    by_cases he : c = c'
    · subst he
      rw [if_pos ⟨rfl, hc⟩, if_pos ⟨rfl, ho⟩]
    · rw [if_neg fun e => he e.1, if_neg fun e => he e.1]
      rfl
  · simp only [ho, if_false, and_false, Bool.false_eq_true]

theorem size_cells_collectOrphan (s : Store) (c : CellId) :
    (s.collectOrphan c).cells.size = s.cells.size := by
  unfold collectOrphan
  split
  · rw [remove, cells_unlink, size_cells_modifyData]
  · rfl

/-- Giving up a writer's guard collects an orphan if no other guard is on it. -/
theorem drop_writer {g : Guard} (h : s.Guarded (g :: G)) (hg : g.hold = .writer) :
    s.drop g =
      { (if Guard.onSlot g.item.slot G = [] then s.collectOrphan g.item.slot else s) with
        locks := s.locks.release g } := by
  have hlast := LockTable.isOutermost_iff h.accounts hg
  unfold drop
  by_cases ho : Guard.onSlot g.item.slot G = []
  · have hl := (steps_collectOrphan (W := fun _ => True) trivial
      (h.item g List.mem_cons_self).1).2
    simp only [Guard.isWritable, hg, hlast.2 ho, ho, BEq.rfl, Bool.and_true, if_true, hl]
  · have hnot : s.locks.isOutermost g = false := by
      rw [← Bool.not_eq_true]
      exact fun e => ho (hlast.1 e)
    simp only [hnot, ho, Bool.and_false, if_false, Bool.false_eq_true]

theorem data_drop {g : Guard} (h : s.Guarded (g :: G)) (hg : g.hold = .writer) (c : CellId) :
    (s.drop g).data c =
      if g.item.slot = c ∧ Guard.onSlot c G = [] ∧ (s.data c).isOrphan = true then
        { s.data c with deleted := true }
      else s.data c := by
  rw [drop_writer h hg]
  by_cases ho : Guard.onSlot g.item.slot G = []
  · rw [if_pos ho]
    refine (data_collectOrphan (h.item g List.mem_cons_self).1 c).trans ?_
    by_cases hc : g.item.slot = c
    · subst hc
      simp [ho]
    · simp [hc]
  · have hnot : ¬ (g.item.slot = c ∧ Guard.onSlot c G = [] ∧ (s.data c).isOrphan = true) :=
      fun e => ho (e.1 ▸ e.2.1)
    rw [if_neg ho, if_neg hnot]
    rfl

/-- Which vertices are left in the graph once a writer's guard is given up. -/
theorem live_drop_iff {g : Guard} (h : s.Guarded (g :: G)) (hg : g.hold = .writer) {c : CellId} :
    (s.drop g).Live c ↔ s.Live c ∧
      ¬ (g.item.slot = c ∧ Guard.onSlot c G = [] ∧ (s.data c).manifestation = .virtual ∧
        (s.data c).degree = 0) := by
  have hcount : (s.drop g).cells.size = s.cells.size := by
    rw [drop_writer h hg]
    split
    · exact size_cells_collectOrphan s _
    · rfl
  rw [Live, hcount, data_drop h hg, Live]
  by_cases hd : (s.data c).deleted = true
  · split <;> simp [hd]
  · rw [Bool.not_eq_true] at hd
    simp only [VertexData.isOrphan, hd, Bool.not_false, Bool.true_and, Bool.and_eq_true, beq_iff_eq]
    split
    next hcase => simp [hcase]
    next hcase => simp [hcase, hd]

/-- A cell under an identifier is in the graph, and has that identifier. -/
theorem Placed.of_lookup (h : s.Placed) {id : String} {c : CellId} (hl : s.lookup id = some c) :
    s.Live c ∧ (s.cell c).id = id := by
  obtain ⟨hk, hid⟩ := Option.filter_eq_some_iff.1 hl
  exact ⟨h.live_of_lookup hk, by simpa using hid⟩

theorem Placed.lookup_of_live (h : s.Placed) {c : CellId} (hc : s.Live c) :
    s.lookup (s.cell c).id = some c := by
  rw [Store.lookup, ← h.keyed c hc.1, h.lookup_key hc]
  simp

theorem Placed.keyOf_of_lookup (h : s.Placed) {id : String} {c : CellId}
    (hc : s.lookup id = some c) : s.keyOf c = .of id := by
  obtain ⟨hlive, rfl⟩ := h.of_lookup hc
  exact h.keyed c hlive.1

theorem Placed.eq_of_id (h : s.Placed) {c c' : CellId} (hc : s.Live c) (hc' : s.Live c')
    (hid : (s.cell c).id = (s.cell c').id) : c = c' := by
  refine h.eq_of_key hc hc' ?_
  rw [h.keyed c hc.1, h.keyed c' hc'.1, hid]

end Store

end Arcbase
