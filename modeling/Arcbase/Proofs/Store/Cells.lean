import Arcbase.Proofs.AssocMap
import Arcbase.Store.Basic
set_option autoImplicit false

/-!
# Cells and the table of registered cells

A cell is *live* unless it has been taken out of the graph.  In a *placed* store
the table lists exactly the live cells, each under the key of its identifier.

* `placed_of_sameFrame`, `placed_addCell`, `placed_remove`: every change of a store
  keeps it placed;
* `mem_registered_iff`, `nodup_registered`: the registered cells are the live ones,
  each listed once;
* `sum_registered_update`: how a sum over them moves when one of them changes.
-/

namespace Arcbase.Store

/-! ## Reading cells after a change -/

theorem cell_modifyData (s : Store) (c : CellId) (f : VertexData → VertexData) (c' : CellId) :
    (s.modifyData c f).cell c' =
      if c = c' ∧ c < s.cells.size then { s.cell c' with data := f (s.data c') }
      else s.cell c' := by
  simp only [cell, data, modifyData, Array.getElem?_modify]
  by_cases hc : c = c'
  · subst hc
    by_cases hlt : c < s.cells.size <;> simp [hlt]
  · simp [hc]

theorem size_cells_modifyData (s : Store) (c : CellId) (f : VertexData → VertexData) :
    (s.modifyData c f).cells.size = s.cells.size := Array.size_modify

theorem cell_addCell (s : Store) (new : Cell) (c : CellId) :
    (s.addCell new).cell c = if c = s.cells.size then new else s.cell c := by
  simp only [cell, addCell, Array.getElem?_push]
  split <;> simp_all

/-- Beyond the cells of a store there is nothing. -/
theorem data_of_size_le {s : Store} {c : CellId} (h : s.cells.size ≤ c) : s.data c = default := by
  rw [data, cell, Array.getElem?_eq_none h]
  rfl

theorem size_cells_addCell (s : Store) (new : Cell) :
    (s.addCell new).cells.size = s.cells.size + 1 := Array.size_push new

theorem lookupKey_addCell (s : Store) (new : Cell) (key : VertexKey) :
    (s.addCell new).lookupKey key = if new.key = key then some s.cells.size else s.lookupKey key :=
  AssocMap.get?_insert ..

theorem cells_unlink (s : Store) (c : CellId) : (s.unlink c).cells = s.cells := by
  simp only [unlink]
  split <;> rfl

theorem cell_remove (s : Store) (c c' : CellId) :
    (s.remove c).cell c' = (s.modifyData c fun d => { d with deleted := true }).cell c' := by
  rw [remove, cell, cells_unlink, cell]

/-! ## Stores with the same vertices -/

/-- Whether a cell holds a vertex that is still in the graph. -/
def Live (s : Store) (c : CellId) : Prop := c < s.cells.size ∧ (s.data c).deleted = false

/-- Two stores with the same cells, which hold the same vertices. -/
structure SameFrame (s s' : Store) : Prop where
  table : s'.table = s.table
  count : s'.cells.size = s.cells.size
  id : ∀ c, (s'.cell c).id = (s.cell c).id
  key : ∀ c, (s'.cell c).key = (s.cell c).key
  deleted : ∀ c, (s'.data c).deleted = (s.data c).deleted

variable {s s' : Store} {c : CellId}

theorem SameFrame.refl (s : Store) : s.SameFrame s :=
  ⟨rfl, rfl, fun _ => rfl, fun _ => rfl, fun _ => rfl⟩

theorem SameFrame.trans {s'' : Store} (h : s.SameFrame s') (h' : s'.SameFrame s'') :
    s.SameFrame s'' :=
  ⟨h'.table.trans h.table, h'.count.trans h.count, fun c => (h'.id c).trans (h.id c),
    fun c => (h'.key c).trans (h.key c), fun c => (h'.deleted c).trans (h.deleted c)⟩

theorem SameFrame.live_iff (h : s.SameFrame s') : s'.Live c ↔ s.Live c := by
  rw [Live, Live, h.count, h.deleted]

theorem SameFrame.lookupKey (h : s.SameFrame s') (key : VertexKey) :
    s'.lookupKey key = s.lookupKey key := by
  rw [Store.lookupKey, Store.lookupKey, h.table]

theorem SameFrame.registered (h : s.SameFrame s') : s'.registered = s.registered := by
  rw [Store.registered, Store.registered, h.table]

theorem sameFrame_of_cells (ht : s'.table = s.table) (hc : s'.cells = s.cells) :
    s.SameFrame s' := by
  refine ⟨ht, by rw [hc], ?_, ?_, ?_⟩ <;> intro c <;> simp only [data, cell, hc]

theorem sameFrame_locks (s : Store) (locks : LockTable) : s.SameFrame { s with locks } :=
  sameFrame_of_cells rfl rfl

theorem sameFrame_labels (s : Store) (labels : Labels) : s.SameFrame { s with labels } :=
  sameFrame_of_cells rfl rfl

theorem sameFrame_modifyData (s : Store) (c : CellId) {f : VertexData → VertexData}
    (hf : ∀ d, (f d).deleted = d.deleted) : s.SameFrame (s.modifyData c f) := by
  refine ⟨rfl, size_cells_modifyData s c f, ?_, ?_, ?_⟩
  · intro c'
    rw [cell_modifyData]
    split <;> rfl
  · intro c'
    rw [cell_modifyData]
    split <;> rfl
  · intro c'
    rw [data, cell_modifyData]
    split
    · exact hf _
    · rfl

/-! ## Placed stores -/

/-- The table lists the live cells under the keys of their identifiers. -/
structure Placed (s : Store) : Prop where
  lookup : ∀ key c, s.lookupKey key = some c ↔ s.Live c ∧ (s.cell c).key = key
  keyed : ∀ c, c < s.cells.size → (s.cell c).key = .of (s.cell c).id

theorem placed_new (config : Config) (labels : Labels) : (new config labels).Placed := by
  refine ⟨fun key c => ?_, fun c hc => absurd hc (Nat.not_lt_zero c)⟩
  constructor
  · exact fun h => absurd h (Option.some_ne_none c).symm
  · exact fun h => absurd h.1.1 (Nat.not_lt_zero c)

theorem placed_of_sameFrame (h : s.Placed) (hf : s.SameFrame s') : s'.Placed := by
  refine ⟨fun key c => ?_, fun c hc => ?_⟩
  · rw [hf.lookupKey, h.lookup, hf.live_iff, hf.key]
  · rw [hf.key, hf.id]
    exact h.keyed c (hf.count ▸ hc)

theorem Placed.lookup_key (h : s.Placed) (hc : s.Live c) : s.lookupKey (s.cell c).key = some c :=
  (h.lookup _ c).2 ⟨hc, rfl⟩

theorem Placed.live_of_lookup (h : s.Placed) {key : VertexKey}
    (hk : s.lookupKey key = some c) : s.Live c := ((h.lookup key c).1 hk).1

theorem Placed.key_of_lookup (h : s.Placed) {key : VertexKey}
    (hk : s.lookupKey key = some c) : (s.cell c).key = key := ((h.lookup key c).1 hk).2

/-- Live cells have different keys. -/
theorem Placed.eq_of_key (h : s.Placed) {c' : CellId} (hc : s.Live c) (hc' : s.Live c')
    (hk : (s.cell c).key = (s.cell c').key) : c = c' := by
  have hl := h.lookup_key hc
  rw [hk, h.lookup_key hc'] at hl
  exact (Option.some.inj hl).symm

theorem live_addCell_iff {new : Cell} (hd : new.data.deleted = false) :
    (s.addCell new).Live c ↔ c = s.cells.size ∨ s.Live c := by
  rw [Live, size_cells_addCell, data, cell_addCell, Live]
  by_cases hc : c = s.cells.size
  · simp [hc, hd]
  · rw [if_neg hc, data]
    constructor
    · exact fun h => .inr ⟨Nat.lt_of_le_of_ne (Nat.le_of_lt_succ h.1) hc, h.2⟩
    · rintro (h | h)
      · exact absurd h hc
      · exact ⟨Nat.lt_succ_of_lt h.1, h.2⟩

theorem placed_addCell (h : s.Placed) {new : Cell} (hd : new.data.deleted = false)
    (hk : new.key = .of new.id) (hn : s.lookupKey new.key = none) : (s.addCell new).Placed := by
  refine ⟨fun key c => ?_, fun c hc => ?_⟩
  · rw [lookupKey_addCell, live_addCell_iff hd, cell_addCell]
    by_cases hc : c = s.cells.size
    · subst hc
      have hnot : ¬ s.lookupKey key = some s.cells.size := fun e =>
        Nat.lt_irrefl _ (h.live_of_lookup e).1
      by_cases hkey : new.key = key <;> simp [hkey, hnot]
    · simp only [hc, if_false, false_or]
      by_cases hkey : new.key = key
      · rw [if_pos hkey, ← h.lookup, ← hkey, hn]
        simp [Ne.symm hc]
      · rw [if_neg hkey]
        exact h.lookup key c
  · rw [cell_addCell]
    rw [size_cells_addCell] at hc
    split
    next => exact hk
    next hne => exact h.keyed c (Nat.lt_of_le_of_ne (Nat.le_of_lt_succ hc) hne)

theorem live_remove_iff {c' : CellId} : (s.remove c).Live c' ↔ s.Live c' ∧ c ≠ c' := by
  have hcount : (s.remove c).cells.size = s.cells.size := by
    rw [remove, cells_unlink, size_cells_modifyData]
  rw [Live, hcount, data, cell_remove, cell_modifyData, Live]
  by_cases hc : c = c'
  · subst hc
    by_cases hlt : c < s.cells.size <;> simp [hlt]
  · simp [hc, data]

theorem table_remove (h : s.Placed) (hc : s.Live c) :
    (s.remove c).table = s.table.erase (s.cell c).key := by
  have hkey : ((s.modifyData c fun d => { d with deleted := true }).cell c).key =
      (s.cell c).key := by
    rw [cell_modifyData]
    split <;> rfl
  have hpos : (s.modifyData c fun d => { d with deleted := true }).lookupKey (s.cell c).key =
      some c := h.lookup_key hc
  rw [remove, unlink, hkey, if_pos hpos]
  rfl

theorem lookupKey_remove (h : s.Placed) (hc : s.Live c) (key : VertexKey) :
    (s.remove c).lookupKey key = if (s.cell c).key = key then none else s.lookupKey key := by
  rw [lookupKey, table_remove h hc, AssocMap.get?_erase]
  rfl

theorem placed_remove (h : s.Placed) (hc : s.Live c) : (s.remove c).Placed := by
  have hcell : ∀ c', ((s.remove c).cell c').key = (s.cell c').key ∧
      ((s.remove c).cell c').id = (s.cell c').id := by
    intro c'
    rw [cell_remove, cell_modifyData]
    split <;> exact ⟨rfl, rfl⟩
  refine ⟨fun key c' => ?_, fun c' hc' => ?_⟩
  · rw [lookupKey_remove h hc, live_remove_iff, (hcell c').1]
    by_cases hk : (s.cell c).key = key
    · rw [if_pos hk]
      constructor
      · exact fun e => absurd e (Option.some_ne_none c').symm
      · rintro ⟨⟨hl, hne⟩, hk'⟩
        exact absurd (h.eq_of_key hc hl (hk.trans hk'.symm)) hne
    · rw [if_neg hk, h.lookup]
      constructor
      · rintro ⟨hl, hk'⟩
        exact ⟨⟨hl, fun e => hk (e ▸ hk')⟩, hk'⟩
      · rintro ⟨⟨hl, _⟩, hk'⟩
        exact ⟨hl, hk'⟩
  · rw [(hcell c').1, (hcell c').2]
    rw [remove, cells_unlink, size_cells_modifyData] at hc'
    exact h.keyed c' hc'

/-! ## The registered cells -/

theorem registered_addCell {new : Cell} (hn : s.lookupKey new.key = none) :
    (s.addCell new).registered = s.registered ++ [s.cells.size] := by
  simp only [registered, AssocMap.values, addCell]
  rw [AssocMap.entries_insert_of_get?_eq_none hn, List.map_append]
  rfl

theorem mem_registered_iff (h : s.Placed) : c ∈ s.registered ↔ s.Live c := by
  rw [registered, AssocMap.mem_values_iff]
  constructor
  · rintro ⟨key, hk⟩
    exact h.live_of_lookup hk
  · exact fun hc => ⟨_, h.lookup_key hc⟩

theorem nodup_registered (h : s.Placed) : s.registered.Nodup := by
  refine List.Nodup.map_on ?_ s.table.nodup_entries
  rintro ⟨k, c⟩ hm ⟨k', c'⟩ hm' (rfl : c = c')
  rw [AssocMap.mem_entries_iff] at hm hm'
  rw [← h.key_of_lookup hm, ← h.key_of_lookup hm']

theorem registered_perm_of_live (h : s.Placed) (hc : s.Live c) :
    s.registered.Perm (c :: (s.table.erase (s.cell c).key).values) :=
  AssocMap.values_perm_of_get? (h.lookup_key hc)

theorem mem_erase_values (h : s.Placed) (hc : s.Live c) {c' : CellId} :
    c' ∈ (s.table.erase (s.cell c).key).values ↔ s.Live c' ∧ c ≠ c' := by
  have hnodup := (registered_perm_of_live h hc).nodup_iff.1 (nodup_registered h)
  have hmem := (registered_perm_of_live h hc).mem_iff (a := c')
  rw [mem_registered_iff h, List.mem_cons] at hmem
  rw [List.nodup_cons] at hnodup
  constructor
  · intro hm
    exact ⟨hmem.2 (.inr hm), fun e => hnodup.1 (e ▸ hm)⟩
  · rintro ⟨hl, hne⟩
    rcases hmem.1 hl with e | hm
    · exact absurd e.symm hne
    · exact hm

/-- A sum over the registered cells moves by what one of them contributes. -/
theorem sum_registered_update (h : s.Placed) (hc : s.Live c) {v w : CellId → Nat}
    (ho : ∀ c', s.Live c' → c ≠ c' → w c' = v c') :
    (s.registered.map w).sum + v c = (s.registered.map v).sum + w c := by
  have hrest : ((s.table.erase (s.cell c).key).values.map w).sum =
      ((s.table.erase (s.cell c).key).values.map v).sum := by
    refine congrArg List.sum (List.map_congr_left fun c' hm => ?_)
    obtain ⟨hl, hne⟩ := (mem_erase_values h hc).1 hm
    exact ho c' hl hne
  rw [((registered_perm_of_live h hc).map w).sum_eq, ((registered_perm_of_live h hc).map v).sum_eq,
    List.map_cons, List.map_cons, List.sum_cons, List.sum_cons, hrest]
  omega

theorem sum_registered_congr (h : s.Placed) {v w : CellId → Nat}
    (ho : ∀ c, s.Live c → w c = v c) :
    (s.registered.map w).sum = (s.registered.map v).sum :=
  congrArg List.sum (List.map_congr_left fun c hm => ho c ((mem_registered_iff h).1 hm))

end Arcbase.Store
