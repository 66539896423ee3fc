import Arcbase.Proofs.Arc.Index
import Arcbase.Proofs.Store.Cells
import Arcbase.Store.Connect
import Arcbase.Store.Disconnect
set_option autoImplicit false

/-!
# Writing an arc and taking it off, cell by cell

`putArc` and `detach` change two cells, which may be the same one.  `data_putArc`
and `data_detach` say what every cell holds afterwards, as three separate changes:
of the outbound index of the initial, and of the inbound index or the forward-only
count of the terminal.  None of the three reads what another one wrote, so that the
case of equal cells needs no treatment of its own.
-/

namespace Arcbase.Store

variable {s : Store} {i t : CellId}

theorem data_modifyData_ite (s : Store) (c : CellId) (f : VertexData → VertexData) (c' : CellId) :
    (s.modifyData c f).data c' =
      if c = c' ∧ c < s.cells.size then f (s.data c') else s.data c' := by
  rw [data, cell_modifyData]
  split <;> rfl

/-- The arc in a slot from `i` to `t`. -/
def arcAt? (s : Store) (i t : CellId) (relationship : LabelCode) (kind : ArcKind) :
    Option StoredArc := (s.data i).out.get? (s.cell t).key relationship kind

/-! ## Writing -/

/-- The arc that a write puts into a slot. -/
def writtenArc (s : Store) (i t : CellId) (relationship : LabelCode) (kind : ArcKind)
    (forwardOnly : Bool) (u : ArcUpdate) (now : UInt32) : StoredArc :=
  { relationship
    kind
    value := u.apply kind ((s.arcAt? i t relationship kind).map (·.value)) now
    forwardOnly := (s.arcAt? i t relationship kind).elim forwardOnly (·.forwardOnly) }

/-- The initial's side of a write. -/
def putOut (s : Store) (i : CellId) (key : VertexKey) (arc : StoredArc) : Store :=
  s.modifyData i fun d => { d with out := (d.out.insert key arc).2 }

/-- The terminal's side of a write. -/
def putInward (s : Store) (t : CellId) (key : VertexKey) (arc : StoredArc) (isNew : Bool) : Store :=
  if !arc.forwardOnly then
    s.modifyData t fun d => { d with inbound := (d.inbound.insert key arc).2 }
  else if isNew then s.modifyData t fun d => { d with forwardOnlyIn := d.forwardOnlyIn + 1 }
  else s

/-- The store with one more arc, if it is a new one. -/
def countNew (s : Store) (isNew : Bool) : Store :=
  { s with size := if isNew then s.size + 1 else s.size }

/-- The data of a cell once the arc is in its slot. -/
def dataWith (s : Store) (i t : CellId) (arc : StoredArc) (isNew : Bool) (c : CellId) :
    VertexData :=
  { s.data c with
    out := if i = c then ((s.data c).out.insert (s.cell t).key arc).2 else (s.data c).out
    inbound :=
      if t = c ∧ arc.forwardOnly = false then ((s.data c).inbound.insert (s.cell i).key arc).2
      else (s.data c).inbound
    forwardOnlyIn :=
      if t = c ∧ arc.forwardOnly = true ∧ isNew = true then (s.data c).forwardOnlyIn + 1
      else (s.data c).forwardOnlyIn }

theorem sameFrame_putOut (s : Store) (i : CellId) (key : VertexKey) (arc : StoredArc) :
    s.SameFrame (s.putOut i key arc) := sameFrame_modifyData s i fun _ => rfl

theorem sameFrame_putInward (s : Store) (t : CellId) (key : VertexKey) (arc : StoredArc)
    (isNew : Bool) : s.SameFrame (s.putInward t key arc isNew) := by
  unfold putInward
  split
  · exact sameFrame_modifyData s t fun _ => rfl
  · split
    · exact sameFrame_modifyData s t fun _ => rfl
    · exact .refl s

theorem size_putInward (s : Store) (t : CellId) (key : VertexKey) (arc : StoredArc)
    (isNew : Bool) : (s.putInward t key arc isNew).size = s.size := by
  unfold putInward
  split
  · rfl
  · split <;> rfl

theorem data_putOut (hi : i < s.cells.size) (key : VertexKey) (arc : StoredArc) (c : CellId) :
    (s.putOut i key arc).data c =
      { s.data c with
        out := if i = c then ((s.data c).out.insert key arc).2 else (s.data c).out } := by
  rw [putOut, data_modifyData_ite]
  by_cases hc : i = c
  · rw [if_pos ⟨hc, hi⟩, if_pos hc]
  · rw [if_neg fun h => hc h.1, if_neg hc]

theorem data_putInward (ht : t < s.cells.size) (key : VertexKey) (arc : StoredArc)
    (isNew : Bool) (c : CellId) :
    (s.putInward t key arc isNew).data c =
      { s.data c with
        inbound :=
          if t = c ∧ arc.forwardOnly = false then ((s.data c).inbound.insert key arc).2
          else (s.data c).inbound
        forwardOnlyIn :=
          if t = c ∧ arc.forwardOnly = true ∧ isNew = true then (s.data c).forwardOnlyIn + 1
          else (s.data c).forwardOnlyIn } := by
  unfold putInward
  by_cases hc : t = c
  · cases hf : arc.forwardOnly
    · simp [data_modifyData_ite, hc, hc ▸ ht]
    · cases isNew <;> simp [data_modifyData_ite, hc, hc ▸ ht]
  · cases hf : arc.forwardOnly
    · simp [data_modifyData_ite, hc]
    · cases isNew <;> simp [data_modifyData_ite, hc]

section Writing

variable (relationship : LabelCode) (kind : ArcKind) (forwardOnly : Bool) (u : ArcUpdate)
  (now : UInt32)

/-- A write is its two sides and the count. -/
theorem putArc_snd :
    (s.putArc i t relationship kind forwardOnly u now).2 =
      ((s.putOut i (s.cell t).key
        (s.writtenArc i t relationship kind forwardOnly u now)).putInward t
        (s.cell i).key (s.writtenArc i t relationship kind forwardOnly u now)
        (s.arcAt? i t relationship kind).isNone).countNew (s.arcAt? i t relationship kind).isNone :=
  rfl

theorem sameFrame_putArc :
    s.SameFrame (s.putArc i t relationship kind forwardOnly u now).2 := by
  rw [putArc_snd]
  exact ((sameFrame_putOut ..).trans (sameFrame_putInward ..)).trans (sameFrame_of_cells rfl rfl)

theorem size_putArc :
    (s.putArc i t relationship kind forwardOnly u now).2.size =
      if (s.arcAt? i t relationship kind).isNone then s.size + 1 else s.size := by
  rw [putArc_snd, countNew, size_putInward]
  rfl

theorem data_putArc (hi : i < s.cells.size) (ht : t < s.cells.size) (c : CellId) :
    (s.putArc i t relationship kind forwardOnly u now).2.data c =
      s.dataWith i t (s.writtenArc i t relationship kind forwardOnly u now)
        (s.arcAt? i t relationship kind).isNone c := by
  have hcount : t < (s.putOut i (s.cell t).key
      (s.writtenArc i t relationship kind forwardOnly u now)).cells.size := by
    rw [(sameFrame_putOut ..).count]
    exact ht
  rw [putArc_snd]
  change (putInward ..).data c = _
  rw [data_putInward hcount, data_putOut hi]
  rfl

end Writing

/-! ## Taking off -/

/-- The initial's side of taking an arc off. -/
def takeOut (s : Store) (i : CellId) (key : VertexKey) (arc : StoredArc) : Store :=
  s.modifyData i fun d => { d with out := ((s.data i).out.remove key arc.relationship arc.kind).2 }

/-- The terminal's side of taking an arc off. -/
def takeInward (s : Store) (t : CellId) (key : VertexKey) (arc : StoredArc) : Store :=
  if arc.forwardOnly then s.modifyData t fun d => { d with forwardOnlyIn := d.forwardOnlyIn - 1 }
  else
    s.modifyData t fun d =>
      { d with inbound := (d.inbound.remove key arc.relationship arc.kind).2 }

/-- The data of a cell once the arc is out of its slot. -/
def dataWithout (s : Store) (i t : CellId) (arc : StoredArc) (c : CellId) : VertexData :=
  { s.data c with
    out :=
      if i = c then ((s.data c).out.remove (s.cell t).key arc.relationship arc.kind).2
      else (s.data c).out
    inbound :=
      if t = c ∧ arc.forwardOnly = false then
        ((s.data c).inbound.remove (s.cell i).key arc.relationship arc.kind).2
      else (s.data c).inbound
    forwardOnlyIn :=
      if t = c ∧ arc.forwardOnly = true then (s.data c).forwardOnlyIn - 1
      else (s.data c).forwardOnlyIn }

theorem sameFrame_takeOut (s : Store) (i : CellId) (key : VertexKey) (arc : StoredArc) :
    s.SameFrame (s.takeOut i key arc) := sameFrame_modifyData s i fun _ => rfl

theorem sameFrame_takeInward (s : Store) (t : CellId) (key : VertexKey) (arc : StoredArc) :
    s.SameFrame (s.takeInward t key arc) := by
  unfold takeInward
  split <;> exact sameFrame_modifyData s t fun _ => rfl

theorem data_takeOut (hi : i < s.cells.size) (key : VertexKey) (arc : StoredArc) (c : CellId) :
    (s.takeOut i key arc).data c =
      { s.data c with
        out :=
          if i = c then ((s.data c).out.remove key arc.relationship arc.kind).2
          else (s.data c).out } := by
  rw [takeOut, data_modifyData_ite]
  by_cases hc : i = c
  · rw [if_pos ⟨hc, hi⟩, if_pos hc, hc]
  · rw [if_neg fun h => hc h.1, if_neg hc]

theorem data_takeInward (ht : t < s.cells.size) (key : VertexKey) (arc : StoredArc) (c : CellId) :
    (s.takeInward t key arc).data c =
      { s.data c with
        inbound :=
          if t = c ∧ arc.forwardOnly = false then
            ((s.data c).inbound.remove key arc.relationship arc.kind).2
          else (s.data c).inbound
        forwardOnlyIn :=
          if t = c ∧ arc.forwardOnly = true then (s.data c).forwardOnlyIn - 1
          else (s.data c).forwardOnlyIn } := by
  unfold takeInward
  by_cases hc : t = c
  · cases hf : arc.forwardOnly <;> simp [data_modifyData_ite, hc, hc ▸ ht]
  · cases hf : arc.forwardOnly <;> simp [data_modifyData_ite, hc]

section Detaching

variable {arc removed : StoredArc}

theorem detach_of_vacant (h : s.arcAt? i t arc.relationship arc.kind = none) :
    s.detach i t arc = (false, s) := by
  have hr := ArcIndex.remove_of_get?_eq_none h
  simp only [detach, hr]

/-- Taking an arc off is taking off its two sides. -/
theorem detach_of_arcAt? (h : s.arcAt? i t arc.relationship arc.kind = some removed) :
    s.detach i t arc =
      (true, (s.takeOut i (s.cell t).key removed).takeInward t (s.cell i).key removed) := by
  obtain ⟨_, hr, hk⟩ := ArcIndex.get?_slot h
  have hfst := ArcIndex.fst_remove (s.data i).out (s.cell t).key arc.relationship arc.kind
  have hpair : (s.data i).out.remove (s.cell t).key arc.relationship arc.kind =
      (some removed, ((s.data i).out.remove (s.cell t).key arc.relationship arc.kind).2) :=
    Prod.ext (hfst.trans h) rfl
  rw [detach, hpair]
  simp only [takeOut, takeInward, hr, hk]

theorem sameFrame_detach (s : Store) (i t : CellId) (arc : StoredArc) :
    s.SameFrame (s.detach i t arc).2 := by
  cases h : s.arcAt? i t arc.relationship arc.kind with
  | none =>
    rw [detach_of_vacant h]
    exact .refl s
  | some removed =>
    rw [detach_of_arcAt? h]
    exact (sameFrame_takeOut ..).trans (sameFrame_takeInward ..)

theorem data_detach (hi : i < s.cells.size) (ht : t < s.cells.size)
    (h : s.arcAt? i t arc.relationship arc.kind = some removed) (c : CellId) :
    (s.detach i t arc).2.data c = s.dataWithout i t removed c := by
  have hcount : t < (s.takeOut i (s.cell t).key removed).cells.size := by
    rw [(sameFrame_takeOut ..).count]
    exact ht
  rw [detach_of_arcAt? h, data_takeInward hcount, data_takeOut hi]
  rfl

end Detaching

end Arcbase.Store
