import Arcbase.Proofs.Action.Holding
import Arcbase.Store.Handle
import Arcbase.Store.Opening
set_option autoImplicit false

/-!
# Creating, opening and handles are orderly
-/

namespace Arcbase.Action

open Store

variable {agree : Agreement} {W : CellId → Prop} {G L : List Guard} {who : Caller}

/-! ## Changes of attributes -/

theorem keepsArcs_promote (now : UInt32) : KeepsArcs (·.promote now) := by
  intro d
  simp only [VertexData.promote]
  split <;> exact ⟨rfl, rfl, rfl, rfl, rfl⟩

theorem keepsArcs_touch (now : UInt32) : KeepsArcs (·.touch now) :=
  fun _ => ⟨rfl, rfl, rfl, rfl, rfl⟩

theorem keepsArcs_strip (now : UInt32) : KeepsArcs (·.strip now) :=
  fun _ => ⟨rfl, rfl, rfl, rfl, rfl⟩

/-- A change of attributes where nothing needs to be known of the store. -/
theorem turns_attributes {c : CellId} {f : VertexData → VertexData} (hW : W c)
    (hf : KeepsArcs f) :
    Turns agree W G (fun _ => True) (update (·.modifyData c f)) (fun _ => G) L
      fun _ _ => True :=
  turns_modifyData hW hf frameStable_true

/-! ## Creating -/

theorem orderly_encodeTypes {type : Option String} :
    Orderly agree W G (fun _ => True) (type.mapM encodeType) fun _ => AllLive [] := by
  cases type with
  | none => exact orderly_pure fun _ _ => allLive_nil
  | some label =>
    refine orderly_bind (orderly_encodeType frameStable_true) fun code => ?_
    exact orderly_pure fun _ _ => allLive_nil

theorem orderly_create (hW : Covers W who.thread G) (id : String) (type : Option String) :
    Orderly agree W G (fun _ => True) (create who id type) fun _ _ => True := by
  unfold create
  refine orderly_bind orderly_checkWritable fun _ => ?_
  refine orderly_bind orderly_encodeTypes fun code => ?_
  refine orderly_bind (orderly_findOrAdd []) fun (c, isNew) => ?_
  refine orderly_holding hW (fun s hl => (hl c List.mem_cons_self).1)
    (frameStable_allLive _) (Q := fun _ _ => True) fun g hgiven _ => ?_
  have hown : W c := hgiven.owned (hgiven.writing rfl)
  refine Turns.weaken (P := fun _ => True) ?_ (fun _ _ => trivial) fun _ _ h => h
  have htype : Orderly agree W (g :: G) (fun _ => True)
      (update (·.modifyData c fun d => { d with type := code })) fun _ _ => True :=
    turns_attributes hown fun _ => ⟨rfl, rfl, rfl, rfl, rfl⟩
  -- what follows once the type is known not to clash
  have hend : ∀ d : VertexData, Orderly agree W (g :: G) (fun _ => True)
      (do
        if code.isSome then update (·.modifyData c fun d => { d with type := code })
        update (·.modifyData c (·.promote who.now))
        return if d.manifestation = .virtual then 1 else 0) fun _ _ => True := by
    intro d
    have hlast : Orderly agree W (g :: G) (fun _ => True)
        (do
          update (·.modifyData c (·.promote who.now))
          return if d.manifestation = .virtual then 1 else 0) fun _ _ => True :=
      orderly_bind (turns_attributes hown (keepsArcs_promote who.now)) fun _ =>
        orderly_pure fun _ _ => trivial
    dsimp only
    split
    · exact orderly_bind htype fun _ => hlast
    · exact hlast
  split
  · exact orderly_bind htype fun _ => orderly_pure fun _ _ => trivial
  · refine orderly_bind orderly_read_any fun d => ?_
    dsimp only
    split
    · split
      · exact orderly_bind orderly_read_any fun _ => orderly_bind turns_fail fun _ => hend d
      · exact hend d
    · exact hend d

/-! ## Opening -/

theorem turns_acquireExisting {mode : LockMode} (hW : Covers W who.thread G) (id : String) :
    Turns agree W G (fun _ => True) (acquireExisting who id mode) (fun g => g :: G) G
      fun g _ => Given W who mode g.item.slot g := by
  unfold acquireExisting
  refine orderly_bind ((orderly_find []).weaken (fun _ _ => allLive_nil) fun _ _ h => h)
    fun c => ?_
  refine (turns_acquire hW (fun s hl => (hl c List.mem_cons_self).1) (frameStable_allLive _)).weaken
    (fun _ h => h) fun g _ h => ?_
  exact h.1.slot ▸ h.1

/-- A vertex that has been opened for writing becomes real. -/
theorem turns_promote {g : Guard} {c : CellId} {fact : Prop} (hfact : fact → W c) :
    Turns agree W (g :: G) (fun _ => fact)
      (do
        update (·.modifyData c (·.promote who.now))
        return g) (fun g => g :: G) G fun g' _ => g' = g ∧ fact := by
  refine .intro (fun _ h => h) fun h => ?_
  refine .bind (turns_modifyData (hfact h) (keepsArcs_promote who.now) fun _ _ _ h => h) fun _ => ?_
  exact turns_pure (K := fun g => g :: G) (Q := fun g' _ => g' = g ∧ fact) fun _ h => ⟨rfl, h⟩

theorem turns_openVertex (hW : Covers W who.thread G) (id : String) (mode : OpenMode) :
    Turns agree W G (fun _ => True) (openVertex who id mode) (fun g => g :: G) G
      fun g _ => g.thread = who.thread := by
  cases mode with
  | readonly =>
    exact (turns_acquireExisting hW id).weaken (fun _ h => h) fun _ _ h => h.thread
  | append =>
    refine orderly_bind orderly_checkWritable fun _ => ?_
    refine .bind (turns_acquireExisting hW id) fun g => ?_
    exact (turns_promote fun h : Given W who .writable g.item.slot g =>
      h.owned (h.writing rfl)).weaken
      (fun _ h => h) fun _ _ h => h.1 ▸ h.2.thread
  | write =>
    refine orderly_bind orderly_checkWritable fun _ => ?_
    refine orderly_bind ((orderly_findOrAdd []).weaken (fun _ _ => allLive_nil) fun _ _ h => h)
      fun (c, _) => ?_
    refine .bind (turns_acquire hW (fun s hl => (hl c List.mem_cons_self).1)
      (frameStable_allLive _)) fun g => ?_
    exact (turns_promote fun h : Given W who .writable c g => h.owned (h.writing rfl)).weaken
      (fun _ h => h.1) fun _ _ h => h.1 ▸ h.2.thread

/-- The guards that come with an answer are those that were taken, in another order. -/
theorem perm_handles {new : List Guard} {cells : List CellId} {who : Caller} {mode : LockMode}
    (h : GivenAll W who mode cells new) :
    (cells.filterMap fun c => new.find? fun g => g.item.slot == c).Perm new := by
  have hslots : (new.map fun g => g.item.slot).Nodup := h.slots.nodup_iff.1 h.distinct
  have hfind : ∀ c g, (new.find? fun g => g.item.slot == c) = some g →
      g ∈ new ∧ g.item.slot = c := by
    intro c g hf
    have hc : (g.item.slot == c) = true := by simpa using List.find?_some hf
    exact ⟨List.mem_of_find?_eq_some hf, by simpa using hc⟩
  refine (List.perm_ext_iff_of_nodup ?_ (List.Nodup.of_map _ hslots)).2 fun g => ?_
  · refine List.Nodup.filterMap ?_ h.distinct
    intro c c' g hc hc'
    rw [← (hfind c g hc).2, (hfind c' g hc').2]
  · rw [List.mem_filterMap]
    constructor
    · rintro ⟨c, _, hf⟩
      exact (hfind c g hf).1
    · intro hg
      refine ⟨g.item.slot, h.slots.mem_iff.2 (List.mem_map_of_mem hg), ?_⟩
      cases hf : new.find? fun g' => g'.item.slot == g.item.slot with
      | none =>
        have hnot := List.find?_eq_none.1 hf g hg
        simp at hnot
      | some g' =>
        obtain ⟨hg', hs⟩ := hfind _ _ hf
        exact congrArg some (List.inj_on_of_nodup_map hslots hg' hg hs)

/-- Every cell has its guard. -/
theorem slots_handles {new : List Guard} {cells : List CellId} {mode : LockMode}
    (h : GivenAll W who mode cells new) :
    (cells.filterMap fun c => new.find? fun g => g.item.slot == c).map (fun g => g.item.slot) =
      cells := by
  have hall : ∀ c ∈ cells, ∃ g, (new.find? fun g => g.item.slot == c) = some g ∧
      g.item.slot = c := by
    intro c hc
    obtain ⟨g, hg, hslot⟩ := List.mem_map.1 (h.slots.mem_iff.1 hc)
    cases hf : new.find? fun g => g.item.slot == c with
    | none =>
      have hnot := List.find?_eq_none.1 hf g hg
      exact absurd (beq_iff_eq.2 hslot) hnot
    | some g' =>
      have hslot : (g'.item.slot == c) = true := by simpa using List.find?_some hf
      exact ⟨g', rfl, beq_iff_eq.1 hslot⟩
  clear h
  induction cells with
  | nil => rfl
  | cons c rest ih =>
    obtain ⟨g, hf, hslot⟩ := hall c List.mem_cons_self
    have hcons := List.filterMap_cons_some (f := fun c => new.find? fun g => g.item.slot == c)
      (l := rest) hf
    rw [hcons, List.map_cons, hslot, ih fun c' hc' => hall c' (List.mem_cons_of_mem c hc')]

/-- Live cells with the given identifiers, in the same order. -/
def Bearing (ids : List String) (cells : List CellId) (s : Store) : Prop :=
  AllLive cells s ∧ cells.map (fun c => (s.cell c).id) = ids

theorem frameStable_bearing (ids : List String) (cells : List CellId) :
    FrameStable (Bearing ids cells) := by
  intro s s' hf ⟨hlive, hids⟩
  refine ⟨hf.allLive hlive, ?_⟩
  rw [← hids]
  exact List.map_congr_left fun c _ => hf.id c

theorem orderly_find_named (id : String) :
    Orderly agree W G (fun _ => True) (find id) fun c s =>
      c < s.cells.size ∧ (s.cell c).id = id := by
  intro s r s' hs hg _ hrun
  rw [run_find] at hrun
  cases hl : s.lookup id with
  | none =>
    rw [hl] at hrun
    cases hrun
    exact ⟨.refl, hg⟩
  | some c =>
    rw [hl] at hrun
    cases hrun
    obtain ⟨hlive, hid⟩ := hs.placed.of_lookup hl
    exact ⟨.refl, hg, hlive.1, hid⟩

theorem orderly_findOrAdd_named (id : String) (manifestation : Manifestation) :
    Orderly agree W G (fun _ => True) (findOrAdd who id manifestation) fun found s =>
      found.1 < s.cells.size ∧ (s.cell found.1).id = id := by
  intro s r s' hs hg _ hrun
  obtain ⟨st, hr⟩ := orderly_findOrAdd (W := W) [] s r s' hs hg allLive_nil hrun
  refine ⟨st, ?_⟩
  cases r with
  | error e => exact hr
  | ok found =>
    refine ⟨hr.1, (hr.2 found.1 List.mem_cons_self).1, ?_⟩
    obtain ⟨_, rfl, _, hid⟩ | ⟨_, _, hc, rfl⟩ := run_findOrAdd hrun
    · exact hid
    · rw [hc, cell_addCell, if_pos rfl]

/-- A loop that finds a cell of each identifier finds them in order: what is added later
has cells of its own. -/
theorem orderly_mapM_named {ids : List String} {f : String → Action CellId}
    (h : ∀ id, Orderly agree W G (fun _ => True) (f id) fun c s =>
      c < s.cells.size ∧ (s.cell c).id = id) :
    Orderly agree W G (fun _ => True) (ids.mapM f) fun cells s =>
      cells.map (fun c => (s.cell c).id) = ids := by
  induction ids with
  | nil => exact orderly_pure fun _ _ => rfl
  | cons id rest ih =>
    rw [List.mapM_cons]
    refine .bind (h id) fun c => ?_
    have hstay : ∀ s s' : Store, s.Extends s' → c < s.cells.size ∧ (s.cell c).id = id →
        c < s'.cells.size ∧ (s'.cell c).id = id := fun s s' he hc =>
      ⟨Nat.lt_of_lt_of_le hc.1 he.count, (he.id c hc.1).trans hc.2⟩
    refine .bind ((ih.framed hstay).weaken (fun _ hc => ⟨trivial, hc⟩) fun _ _ h => h)
      fun cells => ?_
    exact orderly_pure fun s hcells => by rw [List.map_cons, hcells.2.2, hcells.1]

theorem orderly_cellsToOpen (ids : List String) (mode : OpenMode) :
    Orderly agree W G (fun _ => True) (cellsToOpen who ids mode) (Bearing ids) := by
  have hlive : Orderly agree W G (fun _ => True) (cellsToOpen who ids mode) fun cells =>
      AllLive (cells ++ []) := by
    refine (orderly_mapM_cells (fun id _ cs => ?_) []).weaken (fun _ _ => allLive_nil)
      fun _ _ h => h
    cases mode with
    | write => exact orderly_bind (orderly_findOrAdd cs) fun found => orderly_pure fun _ h => h
    | readonly => exact orderly_find cs
    | append => exact orderly_find cs
  have hids : Orderly agree W G (fun _ => True) (cellsToOpen who ids mode) fun cells s =>
      cells.map (fun c => (s.cell c).id) = ids := by
    refine orderly_mapM_named fun id => ?_
    cases mode with
    | write =>
      exact orderly_bind (orderly_findOrAdd_named id .real) fun found => orderly_pure fun _ h => h
    | readonly => exact orderly_find_named id
    | append => exact orderly_find_named id
  refine (hlive.and hids).weaken (fun _ h => h) fun cells s h => ?_
  rwa [List.append_nil] at h

/-- The handles of vertices that have been opened together. -/
structure Handed (who : Caller) (ids : List String) (mode : LockMode) (new : List Guard)
    (s : Store) : Prop where
  ids : new.map (fun g => (s.cell g.item.slot).id) = ids
  thread : ∀ g ∈ new, g.thread = who.thread
  writing : mode = .writable → ∀ g ∈ new, g.hold = .writer

theorem turns_openAll (hW : Covers W who.thread G) (ids : List String) (mode : OpenMode)
    (lockMode : LockMode) :
    Turns agree W G (fun _ => True) (openAll who ids mode lockMode) (fun new => new ++ G) G
      (Handed who ids lockMode) := by
  refine orderly_bind (orderly_cellsToOpen ids mode) fun cells => ?_
  refine .bind (turns_acquireMany hW (fun s hn c hc => (hn.1 c hc).1)
    (frameStable_bearing ids cells)) fun new => ?_
  refine .intro (fun _ h => h.1) fun hgiven => ?_
  refine .bind (M := fun _ => Bearing ids cells) (K := fun _ => new ++ G) ?_ fun _ => ?_
  · refine (turns_forM (P := Bearing ids cells) fun c hc => ?_).weaken (fun _ h => h.2)
      fun _ _ h => h
    split
    next hmode =>
      subst hmode
      exact turns_modifyData (hgiven.owned hc) (keepsArcs_promote who.now)
        (frameStable_bearing ids cells)
    next =>
      exact turns_pure (K := fun _ => new ++ G) (Q := fun _ => Bearing ids cells) fun _ h => h
  · intro s r s' _ hg hnamed hrun
    cases hrun
    have hperm := perm_handles hgiven
    refine ⟨.refl, hg.perm (hperm.symm.append_right G), ?_, fun g hm => ?_, fun hmode g hm => ?_⟩
    · have hslots := congrArg (List.map fun c => (s.cell c).id) (slots_handles hgiven)
      rw [List.map_map] at hslots
      exact hslots.trans hnamed.2
    · exact (hgiven.each g (hperm.mem_iff.1 hm)).thread
    · exact (hgiven.each g (hperm.mem_iff.1 hm)).writing hmode

/-- The mode in which vertices are held that are opened in a mode. -/
def lockModeOf : OpenMode → LockMode
  | .readonly => .readonly
  | .append | .write => .writable

theorem turns_openVertices (hW : Covers W who.thread G) (ids : List String) (mode : OpenMode) :
    Turns agree W G (fun _ => True) (openVertices who ids mode) (fun new => new ++ G) G
      (Handed who ids (lockModeOf mode)) := by
  unfold openVertices
  split
  next => exact turns_fail
  next =>
    cases mode with
    | readonly => exact turns_openAll hW ids .readonly .readonly
    | append =>
      exact orderly_bind orderly_checkWritable fun _ => turns_openAll hW ids .append .writable
    | write =>
      exact orderly_bind orderly_checkWritable fun _ => turns_openAll hW ids .write .writable

end Arcbase.Action
