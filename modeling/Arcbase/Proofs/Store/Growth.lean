import Arcbase.Proofs.Store.Listing
import Arcbase.Proofs.Lock.Requests
set_option autoImplicit false

/-!
# Stores that have only grown

A call that is given up may have registered vertices before.  What it leaves is then the
store as it was with these vertices after all others (`Grown`); cells of vertices that
have been taken out again do not show.
-/

namespace Arcbase.Store

variable {agree : Agreement} {s s' : Store} {new : List Cell}

/-- The cells of a store are as before; after them come cells of which some are
registered, after all that were, and nothing else has changed but labels and records of
locks. -/
structure Grown (new : List Cell) (s s' : Store) : Prop where
  count : s.cells.size ≤ s'.cells.size
  cell : ∀ c, c < s.cells.size → s'.cell c = s.cell c
  table : ∃ cs : List CellId,
    s'.table.entries = s.table.entries ++ cs.map (fun c => ((s'.cell c).key, c)) ∧
      (∀ c ∈ cs, s.cells.size ≤ c ∧ c < s'.cells.size) ∧ cs.map s'.cell = new
  size : s'.size = s.size
  schedule : s'.schedule = s.schedule
  settings : s.locks.SameSettings s'.locks

theorem grown_of_cells (ht : s'.table = s.table) (hc : s'.cells = s.cells) (hs : s'.size = s.size)
    (hq : s'.schedule = s.schedule) (hl : s.locks.SameSettings s'.locks) : Grown [] s s' := by
  refine ⟨Nat.le_of_eq (congrArg Array.size hc.symm), fun c _ => ?_, ⟨[], ?_, ?_, rfl⟩, hs, hq, hl⟩
  · rw [cell, hc, cell]
  · rw [ht, List.map_nil, List.append_nil]
  · exact fun c hm => absurd hm List.not_mem_nil

theorem Grown.refl (s : Store) : Grown [] s s := grown_of_cells rfl rfl rfl rfl (.refl _)

theorem grown_locks {t : LockTable} (h : s.locks.SameSettings t) :
    Grown [] s { s with locks := t } := grown_of_cells rfl rfl rfl rfl h

theorem grown_labels (s : Store) (labels : Labels) : Grown [] s { s with labels } :=
  grown_of_cells rfl rfl rfl rfl (.refl _)

theorem Grown.trans {new' : List Cell} {s'' : Store} (h : Grown new s s')
    (h' : Grown new' s' s'') : Grown (new ++ new') s s'' := by
  obtain ⟨cs, hentries, hrange, hnew⟩ := h.table
  obtain ⟨cs', hentries', hrange', hnew'⟩ := h'.table
  have hcell : ∀ c ∈ cs, s''.cell c = s'.cell c := fun c hc => h'.cell c (hrange c hc).2
  refine ⟨Nat.le_trans h.count h'.count, fun c hc => ?_, ⟨cs ++ cs', ?_, fun c hc => ?_, ?_⟩,
    h'.size.trans h.size, h'.schedule.trans h.schedule, h.settings.trans h'.settings⟩
  · exact (h'.cell c (Nat.lt_of_lt_of_le hc h.count)).trans (h.cell c hc)
  · rw [hentries', hentries, List.append_assoc, List.map_append]
    refine congrArg (s.table.entries ++ ·) (congrArg (· ++ _) ?_)
    exact List.map_congr_left fun c hc => by rw [hcell c hc]
  · rcases List.mem_append.1 hc with hc | hc
    · exact ⟨(hrange c hc).1, Nat.lt_of_lt_of_le (hrange c hc).2 h'.count⟩
    · exact ⟨Nat.le_trans h.count (hrange' c hc).1, (hrange' c hc).2⟩
  · rw [List.map_append, hnew', ← hnew]
    exact congrArg (· ++ new') (List.map_congr_left hcell)

theorem Grown.trans_nil {s'' : Store} (h : Grown new s s') (h' : Grown [] s' s'') :
    Grown new s s'' := List.append_nil new ▸ h.trans h'

theorem Grown.nil_trans {s'' : Store} (h : Grown [] s s') (h' : Grown new s' s'') :
    Grown new s s'' := h.trans h'

theorem Grown.lookupKey (h : Grown new s s') {key : VertexKey} {c : CellId}
    (hc : s.lookupKey key = some c) : s'.lookupKey key = some c := by
  obtain ⟨cs, hentries, _⟩ := h.table
  refine (AssocMap.mem_entries_iff s'.table key c).1 ?_
  rw [hentries]
  exact List.mem_append_left _ ((AssocMap.mem_entries_iff s.table key c).2 hc)

/-- A vertex is registered under a key that was free. -/
theorem grown_addCell {vertex : Cell} (h : s.lookupKey vertex.key = none) :
    Grown [vertex] s (s.addCell vertex) := by
  have hlast : (s.addCell vertex).cell s.cells.size = vertex := by rw [cell_addCell, if_pos rfl]
  have hsize := size_cells_addCell s vertex
  refine ⟨by omega, fun c hc => ?_, ⟨[s.cells.size], ?_, fun c hc => ?_, ?_⟩, rfl, rfl, .refl _⟩
  · rw [cell_addCell, if_neg (Nat.ne_of_lt hc)]
  · rw [List.map_singleton, hlast]
    exact AssocMap.entries_insert_of_get?_eq_none h _
  · rw [List.mem_singleton.1 hc, hsize]
    exact ⟨Nat.le_refl _, Nat.lt_succ_self _⟩
  · rw [List.map_singleton, hlast]

/-- A vertex that is registered and taken out again does not show. -/
theorem grown_addCell_remove {vertex : Cell} (h : s.lookupKey vertex.key = none) :
    Grown [] s ((s.addCell vertex).remove s.cells.size) := by
  have hlast : ((s.addCell vertex).modifyData s.cells.size
      fun d => { d with deleted := true }).lookupKey vertex.key = some s.cells.size := by
    rw [lookupKey_modifyData, lookupKey_addCell, if_pos rfl]
  have hkey : (((s.addCell vertex).modifyData s.cells.size
      fun d => { d with deleted := true }).cell s.cells.size).key = vertex.key := by
    rw [cell_modifyData, cell_addCell, if_pos rfl]
    split <;> rfl
  have htable : ((s.addCell vertex).remove s.cells.size).table =
      (s.table.insert vertex.key s.cells.size).erase vertex.key := by
    rw [remove, unlink, hkey, if_pos hlast]
    rfl
  have hfields : ((s.addCell vertex).remove s.cells.size).size = s.size ∧
      ((s.addCell vertex).remove s.cells.size).schedule = s.schedule ∧
      ((s.addCell vertex).remove s.cells.size).locks = s.locks := by
    rw [remove, unlink, hkey, if_pos hlast]
    exact ⟨rfl, rfl, rfl⟩
  have herase : ((s.table.insert vertex.key s.cells.size).erase vertex.key).entries =
      s.table.entries := AssocMap.entries_erase_insert h _
  refine ⟨?_, fun c hc => ?_, ⟨[], ?_, ?_, rfl⟩, hfields.1, hfields.2.1, hfields.2.2 ▸ .refl _⟩
  · rw [remove, cells_unlink, size_cells_modifyData, size_cells_addCell]
    exact Nat.le_succ _
  · rw [cell_remove, cell_modifyData, if_neg fun e => Nat.ne_of_gt hc e.1, cell_addCell,
      if_neg (Nat.ne_of_lt hc)]
  · rw [htable, herase, List.map_nil, List.append_nil]
  · exact fun c hc => absurd hc List.not_mem_nil

/-! ## What a caller sees -/

/-- A caller sees the same graph: the same vertices with all that is theirs, the same arcs,
and the same holders at the same levels. -/
structure SameGraph (s s' : Store) : Prop where
  table : s'.table = s.table
  cell : ∀ c, c < s.cells.size → s'.cell c = s.cell c
  arcs : s'.arcs = s.arcs
  size : s'.size = s.size
  order : s'.order = s.order
  schedule : s'.schedule = s.schedule
  settings : s.locks.SameSettings s'.locks
  records : ∀ slot, (s.locks.record slot).Same (s'.locks.record slot)

/-- Vertices without arcs add none. -/
theorem Grown.arcs (h : Grown new s s') (hp : s.Placed)
    (hbare : ∀ vertex ∈ new, vertex.data.out = .empty) : s'.arcs = s.arcs := by
  obtain ⟨cs, hentries, _, hnew⟩ := h.table
  have hregistered : s'.registered = s.registered ++ cs := by
    rw [registered, AssocMap.values, hentries, List.map_append, List.map_map]
    exact congrArg (_ ++ ·) (List.map_id cs)
  have hold : s.registered.flatMap s'.arcsFrom = s.arcs := by
    refine List.flatMap_congr fun c hc => ?_
    have hcell := h.cell c ((mem_registered_iff hp).1 hc).1
    rw [arcsFrom, Store.data, keyOf, hcell]
    rfl
  have hadded : cs.flatMap s'.arcsFrom = [] := by
    refine List.flatMap_eq_nil_iff.2 fun c hc => ?_
    have hout : (s'.data c).out = .empty := hbare _ (hnew ▸ List.mem_map_of_mem hc)
    rw [arcsFrom, hout]
    rfl
  rw [Store.arcs, hregistered, List.flatMap_append, hold, hadded, List.append_nil]

/-- A graph looks the same exactly if nothing has been added. -/
theorem Grown.sameGraph_iff (h : Grown new s s') (hp : s.Placed)
    (hrecords : ∀ slot, (s.locks.record slot).Same (s'.locks.record slot)) :
    s.SameGraph s' ↔ new = [] := by
  constructor
  · intro hsame
    obtain ⟨cs, hentries, _, hnew⟩ := h.table
    have hnone : cs.map (fun c => ((s'.cell c).key, c)) = [] := by
      rw [hsame.table] at hentries
      exact List.self_eq_append_right.1 hentries
    rw [← hnew, List.map_eq_nil_iff.1 hnone]
    rfl
  · rintro rfl
    obtain ⟨cs, hentries, _, hnew⟩ := h.table
    have htable : s'.table = s.table := by
      rw [List.map_eq_nil_iff.1 hnew, List.map_nil, List.append_nil] at hentries
      exact AssocMap.eq_of_entries hentries
    refine ⟨htable, h.cell, h.arcs hp fun _ hm => absurd hm List.not_mem_nil, h.size, ?_,
      h.schedule, h.settings, hrecords⟩
    rw [order, htable, order]

end Arcbase.Store
