import Arcbase.Proofs.Store.Step
import Arcbase.Store.Snapshot
set_option autoImplicit false

/-!
# Staged vertices as a store

The vertices of a snapshot are staged beside a store whose graph is empty, and put into
it all at once.  At every moment before, they stand for the store that they would make
(`Staging.stagedOn`): staging a vertex is adding it there, and staging an arc is
writing it there, so that this store is sound throughout (`Staging.Good`).

An arc of a slot that is filled already replaces the outbound side only.  Both sides
then hold arcs in the same slot, of the same kind of inbound arc, but not the same
value.
-/

namespace Arcbase

/-! ## Changing a value in its place -/

theorem Entries.split_of_find {α β : Type} [DecidableEq α] {k : α} {v : β} {l : List (α × β)}
    (h : Entries.find k l = some v) :
    ∃ l₁ l₂, l = l₁ ++ (k, v) :: l₂ ∧ ∀ v', Entries.put k v' l = l₁ ++ (k, v') :: l₂ := by
  induction l with
  | nil => cases h
  | cons p rest ih =>
    obtain ⟨k', v'⟩ := p
    by_cases hk : k' = k
    · subst hk
      obtain rfl : v' = v := by simpa [find] using h
      exact ⟨[], rest, rfl, fun w => by simp [put]⟩
    · simp only [find, hk, if_false] at h
      obtain ⟨l₁, l₂, rfl, hput⟩ := ih h
      exact ⟨(k', v') :: l₁, l₂, rfl, fun w => by simp [put, hk, hput]⟩

/-- Another value under a key takes the place of the old one; the values after it are
those of other keys. -/
theorem AssocMap.values_insert_of_get? {α β : Type} [DecidableEq α] {m : AssocMap α β} {k : α}
    {v : β} (h : m.get? k = some v) :
    ∃ l₁ l₂, m.values = l₁ ++ v :: l₂ ∧ (∀ v', (m.insert k v').values = l₁ ++ v' :: l₂) ∧
      ∀ v' ∈ l₂, ∃ k', k' ≠ k ∧ m.get? k' = some v' := by
  obtain ⟨l₁, l₂, he, hput⟩ := Entries.split_of_find h
  refine ⟨l₁.map Prod.snd, l₂.map Prod.snd, ?_, fun v' => ?_, fun v' hm => ?_⟩
  · rw [values, he, List.map_append, List.map_cons]
  · change (Entries.put k v' m.entries).map Prod.snd = _
    rw [hput, List.map_append, List.map_cons]
  · obtain ⟨⟨k', _⟩, hm', rfl⟩ := List.mem_map.1 hm
    have hnodup := m.nodup
    rw [he, List.map_append, List.map_cons] at hnodup
    have hlater := (List.nodup_cons.1 (List.nodup_append.1 hnodup).2.1).1
    refine ⟨k', fun e => hlater (List.mem_map.2 ⟨_, hm', e⟩), (m.mem_entries_iff _ _).1 ?_⟩
    rw [he]
    exact List.mem_append_right l₁ (List.mem_cons_of_mem _ hm')

namespace Store

variable {s s' : Store}

/-! ## Adding cells -/

theorem addCell_modifyData {c : CellId} (hc : c < s.cells.size) (f : VertexData → VertexData)
    (new : Cell) : (s.modifyData c f).addCell new = (s.addCell new).modifyData c f := by
  have hcells : (s.cells.modify c fun cell => { cell with data := f cell.data }).push new =
      (s.cells.push new).modify c fun cell => { cell with data := f cell.data } := by
    refine Array.ext (by simp) fun i h₁ h₂ => ?_
    rw [Array.getElem_push, Array.getElem_modify]
    simp only [Array.size_modify, Array.getElem_push, Array.getElem_modify]
    split <;> split <;> simp_all
  simp only [addCell, modifyData, Array.size_modify, hcells]

theorem foldl_addCell_modifyData (cells : List Cell) {c : CellId} (hc : c < s.cells.size)
    (f : VertexData → VertexData) :
    cells.foldl addCell (s.modifyData c f) = (cells.foldl addCell s).modifyData c f := by
  induction cells generalizing s with
  | nil => rfl
  | cons new rest ih =>
    rw [List.foldl_cons, List.foldl_cons, addCell_modifyData hc]
    refine ih ?_
    rw [size_cells_addCell]
    exact Nat.lt_succ_of_lt hc

/-- A cell that is added with other data might have been changed afterwards. -/
theorem addCell_data (s : Store) (new : Cell) (f : VertexData → VertexData) :
    s.addCell { new with data := f new.data } = (s.addCell new).modifyData s.cells.size f := by
  have hcells : s.cells.push { new with data := f new.data } =
      (s.cells.push new).modify s.cells.size fun cell => { cell with data := f cell.data } := by
    refine Array.ext (by simp) fun i h₁ h₂ => ?_
    rw [Array.size_push] at h₁
    rw [Array.getElem_modify, Array.getElem_push, Array.getElem_push]
    by_cases hi : i < s.cells.size
    · rw [dif_pos hi, if_neg (Nat.ne_of_gt hi), dif_pos hi]
    · rw [dif_neg hi, if_pos (Nat.le_antisymm (Nat.le_of_not_lt hi) (Nat.le_of_lt_succ h₁)),
        dif_neg hi]
  simp only [addCell, modifyData, hcells]

theorem lookupKey_foldl_addCell {cells : List Cell} {key : VertexKey}
    (h : ∀ cell ∈ cells, cell.key ≠ key) :
    (cells.foldl addCell s).lookupKey key = s.lookupKey key := by
  induction cells generalizing s with
  | nil => rfl
  | cons new rest ih =>
    rw [List.foldl_cons, ih fun cell hm => h cell (List.mem_cons_of_mem new hm), lookupKey_addCell,
      if_neg (h new List.mem_cons_self)]

theorem data_foldl_addCell (cells : List Cell) {c : CellId} (hc : c < s.cells.size) :
    (cells.foldl addCell s).data c = s.data c := by
  induction cells generalizing s with
  | nil => rfl
  | cons new rest ih =>
    rw [List.foldl_cons, ih (by rw [size_cells_addCell]; exact Nat.lt_succ_of_lt hc), data,
      cell_addCell, if_neg (Nat.ne_of_lt hc)]
    rfl

end Store

/-! ## What is staged -/

namespace Staging

open Store

/-- The store that the staged vertices make of one with an empty graph. -/
def stagedOn (g : Staging) (s : Store) : Store :=
  { g.cells.values.foldl addCell s with size := g.size }

/-- The keys of the map are those of the vertices. -/
def Keyed (g : Staging) : Prop := ∀ key cell, g.cells.get? key = some cell → cell.key = key

/-- What is staged makes a sound store. -/
structure Good (g : Staging) : Prop where
  keyed : g.Keyed
  sound : ∀ s : Store, s.Sound .slots → s.table = .empty → (g.stagedOn s).Sound .slots

variable {g : Staging} {s : Store}

theorem good_empty : Good {} := by
  refine ⟨fun key cell h => (Option.some_ne_none cell h.symm).elim, fun s hs ht => ?_⟩
  have hsize : s.size = 0 := by rw [hs.paired.size, registered, ht]; rfl
  have hsame : ({} : Staging).stagedOn s = s := by
    rw [stagedOn, ← hsize]
    rfl
  exact hsame.symm ▸ hs

/-- Changing a staged vertex is changing its cell. -/
theorem stagedOn_modify (s : Store) (hg : g.Keyed) {key : VertexKey} {cell : Cell}
    (hcell : g.cells.get? key = some cell) :
    ∃ c, (g.stagedOn s).lookupKey key = some c ∧ (g.stagedOn s).data c = cell.data ∧
      ∀ f, (g.modify key f).stagedOn s = (g.stagedOn s).modifyData c f := by
  obtain ⟨l₁, l₂, hvalues, hinsert, hlater⟩ := AssocMap.values_insert_of_get? hcell
  have hstore : g.stagedOn s =
      { l₂.foldl addCell ((l₁.foldl addCell s).addCell cell) with size := g.size } := by
    rw [stagedOn, hvalues, List.foldl_append, List.foldl_cons]
  have hlt : (l₁.foldl addCell s).cells.size < ((l₁.foldl addCell s).addCell cell).cells.size := by
    rw [size_cells_addCell]
    exact Nat.lt_succ_self _
  refine ⟨(l₁.foldl addCell s).cells.size, ?_, ?_, fun f => ?_⟩
  · rw [hstore]
    change (l₂.foldl addCell _).lookupKey key = _
    rw [lookupKey_foldl_addCell fun cell' hm => ?_, lookupKey_addCell, if_pos (hg _ _ hcell)]
    obtain ⟨k', hne, hk'⟩ := hlater cell' hm
    exact fun e => hne ((hg _ _ hk').symm.trans e)
  · rw [hstore]
    refine (data_foldl_addCell l₂ hlt).trans ?_
    rw [Store.data, cell_addCell, if_pos rfl]
  · rw [modify, hcell, stagedOn]
    dsimp only
    rw [hinsert, List.foldl_append, List.foldl_cons, addCell_data, foldl_addCell_modifyData l₂ hlt,
      hstore]
    rfl

theorem good_stageVertex (hg : g.Good) (cell : Cell) (hkey : cell.key = .of cell.id)
    (hkept : cell.data.deleted = false) (hbare : Bare cell.data)
    (hnew : g.cells.get? cell.key = none) :
    Good { g with cells := g.cells.insert cell.key cell } := by
  refine ⟨fun key cell' h => ?_, fun s hs ht => ?_⟩
  · rw [AssocMap.get?_insert] at h
    split at h
    next he => exact Option.some.inj h ▸ he
    next => exact hg.keyed key cell' h
  · have hvalues : (g.cells.insert cell.key cell).values = g.cells.values ++ [cell] := by
      rw [AssocMap.values, AssocMap.entries_insert_of_get?_eq_none hnew, List.map_append]
      rfl
    have hstore : stagedOn { g with cells := g.cells.insert cell.key cell } s =
        (g.stagedOn s).addCell cell := by
      rw [stagedOn, hvalues, List.foldl_append]
      rfl
    have hfresh : (g.stagedOn s).lookupKey cell.key = none := by
      refine (lookupKey_foldl_addCell fun cell' hm e => ?_).trans ?_
      · obtain ⟨key, hk⟩ := AssocMap.mem_values_iff.1 hm
        rw [← hg.keyed key cell' hk, e, hnew] at hk
        cases hk
      · rw [lookupKey, ht, AssocMap.get?_empty]
    rw [hstore]
    exact (Step.add (W := fun _ => True) hfresh hkey hkept hbare).sound (hg.sound s hs ht)

/-- Entries for the schedule touch nothing else. -/
theorem foldl_scheduleAt (items : List (Expiring × UInt32)) (s : Store) :
    ∃ schedule, items.foldl (fun s (item, time) => s.scheduleAt item time) s =
      { s with schedule } := by
  induction items generalizing s with
  | nil => exact ⟨s.schedule, rfl⟩
  | cons item rest ih =>
    obtain ⟨schedule, h⟩ := ih (s.scheduleAt item.1 item.2)
    exact ⟨schedule, h⟩

theorem stagedOn_commit (g : Staging) (s : Store) :
    ∃ schedule, g.commit s = { g.stagedOn s with schedule } :=
  foldl_scheduleAt _ (g.stagedOn s)

theorem get?_modify (key key' : VertexKey) (f : VertexData → VertexData) :
    (g.modify key f).cells.get? key' =
      (g.cells.get? key').map fun cell =>
        if key = key' then { cell with data := f cell.data } else cell := by
  unfold modify
  cases h : g.cells.get? key with
  | none =>
    by_cases hk : key = key'
    · subst hk
      rw [h]
      rfl
    · simp [hk]
  | some cell =>
    dsimp only
    rw [AssocMap.get?_insert]
    by_cases hk : key = key'
    · subst hk
      rw [if_pos rfl, h]
      simp
    · simp [hk]

theorem size_modify (g : Staging) (key : VertexKey) (f : VertexData → VertexData) :
    (g.modify key f).size = g.size := by
  unfold modify
  split <;> rfl

theorem keyed_modify (hg : g.Keyed) (key : VertexKey) (f : VertexData → VertexData) :
    (g.modify key f).Keyed := by
  intro key' cell h
  rw [get?_modify] at h
  obtain ⟨cell', hcell, rfl⟩ := Option.map_eq_some_iff.1 h
  split <;> exact hg key' cell' hcell

/-- If nothing stands against an arc, its ends are staged, and its terminal has no
inbound arcs of the other sort. -/
theorem ends_of_arcFault? {a : ArcSnapshot} (h : g.arcFault? a = none) :
    (∃ cell, g.cells.get? (.of a.initial) = some cell) ∧
      ∃ cell, g.cells.get? (.of a.terminal) = some cell ∧
        (a.forwardOnly = true → cell.data.inbound.isEmpty = true) ∧
        (a.forwardOnly = false → cell.data.forwardOnlyIn = 0) := by
  have hcontains : ∀ id, ¬ (!g.contains id) = true →
      ∃ cell, g.cells.get? (.of id) = some cell := by
    intro id hid
    have hid : g.contains id = true := by simpa using hid
    obtain ⟨cell, hcell, _⟩ := (Option.any_eq_true ..).1 hid
    exact ⟨cell, hcell⟩
  unfold arcFault? at h
  dsimp only at h
  by_cases hi : (!g.contains a.initial) = true
  · rw [if_pos hi] at h
    cases h
  by_cases ht : (!g.contains a.terminal) = true
  · rw [if_neg hi, if_pos ht] at h
    cases h
  by_cases hvalue : (!a.kind.allows a.value) = true
  · rw [if_neg hi, if_neg ht, if_pos hvalue] at h
    cases h
  rw [if_neg hi, if_neg ht, if_neg hvalue] at h
  obtain ⟨cell, hcell⟩ := hcontains a.terminal ht
  have hdata : g.data (.of a.terminal) = cell.data := by rw [Staging.data, hcell]; rfl
  rw [hdata] at h
  refine ⟨hcontains a.initial hi, cell, hcell, fun hf => ?_, fun hf => ?_⟩
  · rw [hf] at h
    cases he : cell.data.inbound.isEmpty
    · simp [he] at h
    · rfl
  · rw [hf] at h
    simpa using h

/-- An arc that passes the checks has the same side as one in its slot. -/
theorem forwardOnly_of_slot {s : Store} (h : s.Paired .slots) (hp : s.Placed) {i t : CellId}
    (hi : s.Live i) (ht : s.Live t) {relationship : LabelCode} {kind : ArcKind} {old : StoredArc}
    (hold : s.arcAt? i t relationship kind = some old) {forwardOnly : Bool}
    (hforward : forwardOnly = true → (s.data t).inbound.isEmpty = true)
    (hregular : forwardOnly = false → (s.data t).forwardOnlyIn = 0) :
    old.forwardOnly = forwardOnly := by
  cases hf : forwardOnly
  · refine Bool.eq_false_iff.2 fun hold' => ?_
    have hpos := h.forwardOnlyIn_pos hp hi ht hold hold'
    rw [hregular hf] at hpos
    exact Nat.lt_irrefl 0 hpos
  · refine Bool.not_eq_false _ ▸ fun hold' => ?_
    have hpos := h.inbound_pos hi ht hold hold'
    have hnone := hforward hf
    rw [ArcIndex.isEmpty, beq_iff_eq] at hnone
    exact Nat.ne_of_gt hpos hnone

theorem good_addArc_of_taken (hg : g.Good) {a : ArcSnapshot} (hfault : g.arcFault? a = none)
    {relationship : LabelCode} {old : StoredArc}
    (hslot : (g.data (.of a.initial)).out.get? (.of a.terminal) relationship a.kind = some old) :
    (g.addArc a relationship).Good := by
  obtain ⟨⟨celli, hi⟩, cellt, ht, hforward, hregular⟩ := ends_of_arcFault? hfault
  have hdata : g.data (.of a.initial) = celli.data := by rw [Staging.data, hi]; rfl
  unfold addArc
  simp only [hslot, Option.isSome_some, if_true]
  refine ⟨keyed_modify hg.keyed _ _, fun s hs hempty => ?_⟩
  obtain ⟨hplaced, hpaired⟩ := hg.sound s hs hempty
  obtain ⟨i, hlooki, hdatai, hmodify⟩ := stagedOn_modify s hg.keyed hi
  obtain ⟨t, hlookt, hdatat, _⟩ := stagedOn_modify s hg.keyed ht
  have hlivei := hplaced.live_of_lookup hlooki
  have hlivet := hplaced.live_of_lookup hlookt
  have hkeyt : (g.stagedOn s).keyOf t = .of a.terminal := hplaced.key_of_lookup hlookt
  have hold : (g.stagedOn s).arcAt? i t relationship a.kind = some old := by
    rw [arcAt?, hdatai, show ((g.stagedOn s).cell t).key = _ from hkeyt, ← hdata, hslot]
  have hside := forwardOnly_of_slot hpaired hplaced hlivei hlivet hold
    (fun hf => hdatat ▸ hforward hf) fun hf => hdatat ▸ hregular hf
  have hwritten := overwrote_modifyData hlivei t
    ⟨relationship, a.kind, a.value, a.forwardOnly⟩ hold hside
  have hover := paired_overwrote hwritten hpaired hplaced hlivet
  rw [hkeyt] at hover
  rw [hmodify]
  exact ⟨placed_of_sameFrame hplaced (sameFrame_modifyData _ i fun _ => rfl), hover⟩

theorem good_addArc_of_free (hg : g.Good) {a : ArcSnapshot} (hfault : g.arcFault? a = none)
    {relationship : LabelCode}
    (hslot : (g.data (.of a.initial)).out.get? (.of a.terminal) relationship a.kind = none) :
    (g.addArc a relationship).Good := by
  obtain ⟨⟨celli, hi⟩, cellt, ht, _, _⟩ := ends_of_arcFault? hfault
  have hdata : g.data (.of a.initial) = celli.data := by rw [Staging.data, hi]; rfl
  have hkeyed : ∀ f, (g.modify (.of a.initial) f).Keyed := keyed_modify hg.keyed _
  unfold addArc
  simp only [hslot, Option.isSome_none, Bool.false_eq_true, if_false]
  refine ⟨keyed_modify (hkeyed _) _ _, fun s hs hempty => ?_⟩
  have hsound := hg.sound s hs hempty
  have hplaced := hsound.placed
  obtain ⟨i, hlooki, hdatai, hmodify⟩ := stagedOn_modify s hg.keyed hi
  obtain ⟨t, hlookt, _, _⟩ := stagedOn_modify s hg.keyed ht
  have hlivei := hplaced.live_of_lookup hlooki
  have hlivet := hplaced.live_of_lookup hlookt
  have hkeyi : ((g.stagedOn s).cell i).key = .of a.initial := hplaced.key_of_lookup hlooki
  have hkeyt : ((g.stagedOn s).cell t).key = .of a.terminal := hplaced.key_of_lookup hlookt
  have hvacant : (g.stagedOn s).arcAt? i t relationship a.kind = none := by
    rw [arcAt?, hdatai, hkeyt, ← hdata, hslot]
  -- the second change is at the terminal's cell, the first one having moved none
  have hsecond : ∀ f f', ((g.modify (.of a.initial) f).modify (.of a.terminal) f').stagedOn s =
      ((g.stagedOn s).modifyData i f).modifyData t f' := by
    intro f f'
    have hcell := get?_modify (g := g) (.of a.initial) (.of a.terminal) f
    rw [ht, Option.map_some] at hcell
    obtain ⟨c, hlookc, _, hmodify'⟩ := stagedOn_modify s (hkeyed f) hcell
    rw [hmodify, lookupKey_modifyData, hlookt] at hlookc
    rw [hmodify', hmodify, Option.some.inj hlookc]
  have hwrite := (Step.put (W := fun _ => True) trivial trivial hlivei hlivet relationship a.kind
    a.forwardOnly (.set (some a.value)) 0).sound hsound
  rw [putArc_snd, writtenArc, hvacant, hkeyi, hkeyt] at hwrite
  have hcount : ∀ (g' : Staging) (size : Nat) (expiring : List (Expiring × UInt32)),
      stagedOn { g' with size, expiring } s = { g'.stagedOn s with size } := fun _ _ _ => rfl
  rw [hcount, hsecond, size_modify, size_modify]
  cases hf : a.forwardOnly <;> rw [hf] at hwrite <;> exact hwrite

/-- Staging an arc in a slot that is vacant is writing it, in one that is filled is
replacing its outbound side. -/
theorem good_addArc (hg : g.Good) {a : ArcSnapshot} (hfault : g.arcFault? a = none)
    (relationship : LabelCode) : (g.addArc a relationship).Good := by
  cases hslot : (g.data (.of a.initial)).out.get? (.of a.terminal) relationship a.kind with
  | some old => exact good_addArc_of_taken hg hfault hslot
  | none => exact good_addArc_of_free hg hfault hslot

end Staging

end Arcbase
