import Arcbase.Proofs.Action.Careful
import Arcbase.Proofs.Action.Reading
import Arcbase.Store.Snapshot
set_option autoImplicit false

/-!
# Calls that may be retried

Every call is careful.  Most register nothing for good: a vertex that is created is free,
and can be held.  A connect leaves its initial behind if it then cannot hold both ends,
and opening several vertices for writing leaves those that were missing.
-/

namespace Arcbase.Action

open Store

variable {α β : Type} {agree : Agreement} {G : List Guard} {who : Caller} {checked : Prop}

/-! ## Calls that hold one vertex -/

theorem careful_delete (id : String) : Careful agree G who checked [] (delete who id) := by
  refine careful_checkWritable_bind (careful_read_bind fun found => ?_)
  cases found with
  | none => exact (avoids_pure 0).careful
  | some c =>
    refine careful_holding (avoids_bind (avoids_update _) fun _ => ?_)
    refine avoids_attempt_bind (settled_sever _ _ _ _) (fun _ => ?_) fun e he => ?_
    · refine avoids_bind (avoids_read _) fun d => ?_
      split
      · exact avoids_bind (avoids_update _) fun _ => avoids_pure 1
      · exact avoids_bind (avoids_update _) fun _ => avoids_pure 1
    · dsimp only
      split
      · exact avoids_bind (avoids_update _) fun _ => avoids_fail he
      · exact avoids_fail he

theorem careful_disconnect (id : String) (probe : Probe) (neighbor : Option String) :
    Careful agree G who checked [] (disconnect who id probe neighbor) := by
  refine careful_checkWritable_bind ?_
  refine careful_readExcept_bind (fun _ _ => filterOf_error) fun f => ?_
  refine careful_find_bind fun c => careful_holding ?_
  cases neighbor with
  | none => exact settled_sever _ _ _ _
  | some id =>
    refine avoids_bind (avoids_read _) fun found => ?_
    cases found with
    | none => exact avoids_pure 0
    | some n => exact avoids_bind (avoids_read _) fun key => settled_sever _ _ _ _

theorem careful_acquireExisting_bind {id : String} {mode : LockMode} {k : Guard → Action β}
    (hk : ∀ g, (mode = .writable → g.hold = .writer) → Settled (k g)) :
    Careful agree G who checked [] (acquireExisting who id mode >>= k) := by
  rw [acquireExisting, bind_assoc]
  exact careful_find_bind fun c => careful_acquire_bind hk

theorem careful_markExpiring (id : String) (time : UInt32) :
    Careful agree G who checked [] (markExpiring who id time) := by
  refine careful_checkWritable_bind (careful_acquireExisting_bind fun g hg => ?_)
  exact avoids_ensuring (final_setExpiration (hg rfl) time).settled _

theorem careful_runExpiration (time : UInt32) :
    Careful agree G who checked [] (runExpiration who time) := by
  have hall : ∀ due, Settled (expireAll who due) := by
    intro due
    induction due with
    | nil => exact avoids_pure _
    | cons item rest ih =>
      obtain ⟨time, item⟩ := item
      refine avoids_bind (avoids_ofFun fun _ => ⟨_, rfl⟩) fun outcome => ?_
      refine avoids_bind ih fun (report, again) => ?_
      cases outcome with
      | ok gone => exact avoids_pure _
      | error e =>
        dsimp only
        split
        · exact avoids_pure _
        · exact avoids_pure _
  refine careful_checkWritable_bind (Avoids.careful ?_)
  refine avoids_bind (avoids_ofFun fun _ => ⟨_, rfl⟩) fun due => ?_
  refine avoids_bind (hall due) fun (report, again) => ?_
  refine avoids_bind (avoids_update _) fun _ => ?_
  exact avoids_bind (avoids_read _) fun _ => avoids_pure _

/-! ## Vertices that are missing -/

theorem Guarded.of_addCell {s : Store} (hg : s.Guarded G) (vertex : Cell) :
    (s.addCell vertex).Guarded G :=
  hg.transfer (extends_addCell s vertex) hg.accounts fun _ hm => hm

/-- Nobody stands in the way at a cell without guards. -/
theorem acquire_unguarded {s : Store} (hg : s.Guarded G) (hdown : s.locks.readonly = false)
    {c : CellId} (hfree : ∀ g ∈ G, g.item.slot ≠ c) (me : Thread) :
    ∃ p, s.locks.acquire me (s.lockItem c) .writable = .ok p := by
  have hnone : Guard.onSlot c G = [] := List.filter_eq_nil_iff.2 fun g hm => by
    simpa using hfree g hm
  refine (LockTable.acquire_writable_iff hg.accounts).2 ⟨?_, ?_, ?_⟩
  · exact fun g hm hslot => absurd hslot (hfree g hm)
  · have hlength : (Guard.onSlot c G).length = 0 := by rw [hnone]; rfl
    exact hlength ▸ hg.accounts.limit_pos
  · intro hup
    rw [hdown] at hup
    cases hup

/-- A vertex that has just been registered can be held. -/
theorem careful_findOrAdd_acquire {id : String} {manifestation : Manifestation}
    {k : CellId × Bool → Guard → Action β}
    (hk : ∀ p g, Settled (k p g)) :
    Careful agree G who True []
      (findOrAdd who id manifestation >>= fun p => acquire who p.1 .writable >>= k p) := by
  intro s e s' hs hg hchecked hrun hsafe
  rw [run_bind] at hrun
  cases hrun₁ : (findOrAdd who id manifestation).run s with
  | mk r s₁ =>
    rw [hrun₁] at hrun
    cases r with
    | error e₁ =>
      cases hrun
      rw [(final_findOrAdd id manifestation).settled s e _ hrun₁] at hsafe
      cases hsafe
    | ok p =>
      obtain ⟨c, isNew⟩ := p
      rcases run_findOrAdd hrun₁ with ⟨_, rfl, _⟩ | ⟨_, _, rfl, rfl⟩
      · exact careful_acquire_bind (fun g _ => hk _ g) _ e s' hs hg hchecked hrun hsafe
      · have hfree : ∀ g ∈ G, g.item.slot ≠ s.cells.size := fun g hm =>
          Nat.ne_of_lt (hg.item g hm).1
        generalize ({ id, key := .of id, data := .new manifestation who.now } : Cell) = vertex
          at hrun
        obtain ⟨⟨g, t⟩, hacq⟩ := acquire_unguarded (Guarded.of_addCell hg vertex)
          (hchecked trivial) hfree who.thread
        simp only [run_bind, acquire, run_ofFun] at hrun
        rw [hacq] at hrun
        rw [hk _ g _ e s' hrun] at hsafe
        cases hsafe

theorem labelling_encodeTypes (type : Option String) :
    Labelling (type.mapM encodeType) fun _ => True := by
  cases type with
  | none => exact labelling_pure trivial
  | some label => exact labelling_bind labelling_encodeType fun _ _ => labelling_pure trivial

theorem final_encodeTypes (type : Option String) : Final (type.mapM encodeType) := by
  cases type with
  | none => exact avoids_pure none
  | some label => exact avoids_bind (final_encodeType label) fun _ => avoids_pure _

/-- What is done with a vertex that is created once it is held. -/
theorem final_createHeld (type : Option String) (code : Option LabelCode) (c : CellId)
    (id : String) (isNew : Bool) : Final (do
      if isNew then
        update (·.modifyData c fun d => { d with type := code })
        return 1
      let d ← read (·.data c)
      match d.type, code with
      | some present, some wanted =>
        if present ≠ wanted ∧ d.manifestation = .real then
          let present ← read fun s => (s.labels.types.decode? present).getD ""
          fail (.vertex (.typeClash id present (type.getD "")))
      | _, _ => pure ()
      if code.isSome then update (·.modifyData c fun d => { d with type := code })
      update (·.modifyData c (·.promote who.now))
      return if d.manifestation = .virtual then 1 else 0) := by
  -- what follows once the type is known not to clash
  have hend : ∀ d : VertexData, Final (do
      if code.isSome then update (·.modifyData c fun d => { d with type := code })
      update (·.modifyData c (·.promote who.now))
      return if d.manifestation = .virtual then 1 else 0) := by
    intro d
    have hlast : Final (do
        update (·.modifyData c (·.promote who.now))
        return if d.manifestation = .virtual then 1 else 0) :=
      avoids_bind (avoids_update _) fun _ => avoids_pure _
    dsimp only
    split
    · exact avoids_bind (avoids_update _) fun _ => hlast
    · exact hlast
  split
  · exact avoids_bind (avoids_update _) fun _ => avoids_pure 1
  · refine avoids_bind (avoids_read _) fun d => ?_
    dsimp only
    split
    · split
      · exact avoids_bind (avoids_read _) fun _ => avoids_bind (avoids_fail rfl) fun _ => hend d
      · exact hend d
    · exact hend d

theorem careful_create (id : String) (type : Option String) :
    Careful agree G who checked [] (create who id type) := by
  refine careful_checkWritable_bind ?_
  refine careful_labelling_bind (labelling_encodeTypes type) (final_encodeTypes type).settled
    fun code _ => ?_
  exact careful_findOrAdd_acquire fun (c, isNew) g =>
    avoids_ensuring (final_createHeld type code c id isNew).settled _

theorem careful_openVertex (id : String) (mode : OpenMode) :
    Careful agree G who checked [] (openVertex who id mode) := by
  cases mode with
  | readonly =>
    have hopened : Careful agree G who checked [] (acquireExisting who id .readonly >>= pure) :=
      careful_acquireExisting_bind fun g _ => avoids_pure g
    rwa [bind_pure] at hopened
  | append =>
    refine careful_checkWritable_bind (careful_acquireExisting_bind fun g _ => ?_)
    exact avoids_bind (avoids_update _) fun _ => avoids_pure g
  | write =>
    refine careful_checkWritable_bind (careful_findOrAdd_acquire fun (c, _) g => ?_)
    exact avoids_bind (avoids_update _) fun _ => avoids_pure g

/-! ## Opening several vertices -/

/-- A vertex that had to be registered is what the graph has grown by. -/
theorem grown_findOrAdd {id : String} {s s' : Store} {c : CellId} {isNew : Bool}
    (hdown : s.locks.readonly = false)
    (hrun : (findOrAdd who id .real).run s = (.ok (c, isNew), s')) :
    Grown (s.fresh who [id]) s s' := by
  rw [fresh, hdown, if_neg Bool.false_ne_true, List.filter_singleton]
  rcases run_findOrAdd hrun with ⟨_, rfl, hfound, _⟩ | ⟨_, hnone, _, rfl⟩
  · rw [hfound]
    exact .refl s'
  · rw [hnone]
    exact grown_addCell hnone

theorem Guarded.of_findOrAdd {id : String} {manifestation : Manifestation} {s s' : Store}
    {c : CellId} {isNew : Bool} (hg : s.Guarded G)
    (hrun : (findOrAdd who id manifestation).run s = (.ok (c, isNew), s')) : s'.Guarded G := by
  rcases run_findOrAdd hrun with ⟨_, rfl, _⟩ | ⟨_, _, _, rfl⟩
  · exact hg
  · exact Guarded.of_addCell hg _

theorem run_cellsToOpen_cons {first : String} {rest : List String} {s s' : Store}
    {cells : List CellId}
    (hrun : (cellsToOpen who (first :: rest) .write).run s = (.ok cells, s')) :
    ∃ c isNew s₁ cells', (findOrAdd who first .real).run s = (.ok (c, isNew), s₁) ∧
      (cellsToOpen who rest .write).run s₁ = (.ok cells', s') := by
  simp only [cellsToOpen, List.mapM_cons, run_bind] at hrun
  cases hrun₁ : (findOrAdd who first .real).run s with
  | mk r s₁ =>
    rw [hrun₁] at hrun
    cases r with
    | error e => cases hrun
    | ok p =>
      simp only [run_pure] at hrun
      cases hrun₂ : (cellsToOpen who rest .write).run s₁ with
      | mk r₂ s₂ =>
        rw [cellsToOpen] at hrun₂
        rw [hrun₂] at hrun
        cases r₂ with
        | error e => cases hrun
        | ok cells' =>
          cases hrun
          exact ⟨p.1, p.2, s₁, cells', rfl, hrun₂⟩

/-- Vertices that were there are those of the identifiers that were asked for. -/
theorem id_of_cellsToOpen {ids : List String} {s s' : Store} {cells : List CellId}
    (hdown : s.locks.readonly = false)
    (hrun : (cellsToOpen who ids .write).run s = (.ok cells, s')) :
    ∀ id ∈ ids, ∀ c < s.cells.size, s.lookupKey (.of id) = some c → (s.cell c).id = id := by
  induction ids generalizing s cells with
  | nil => exact fun id hm => absurd hm List.not_mem_nil
  | cons first rest ih =>
    intro id hm c hc hfound
    obtain ⟨c₁, isNew, s₁, cells', hfirst, hrest⟩ := run_cellsToOpen_cons hrun
    have hgrown := grown_findOrAdd hdown hfirst
    rcases List.mem_cons.1 hm with rfl | hm
    · rcases run_findOrAdd hfirst with ⟨_, _, hthere, hid⟩ | ⟨_, hnone, _⟩
      · rw [hfound] at hthere
        exact Option.some.inj hthere ▸ hid
      · rw [hfound] at hnone
        cases hnone
    · rw [← hgrown.cell c hc]
      exact ih (hgrown.settings.readonly.trans hdown) hrest id hm c
        (Nat.lt_of_lt_of_le hc hgrown.count) (hgrown.lookupKey hfound)

/-- Opening for writing registers the vertices that are missing. -/
theorem grown_cellsToOpen {ids : List String} (hnodup : ids.Nodup) {s s' : Store}
    {cells : List CellId} (hg : s.Guarded G) (hdown : s.locks.readonly = false)
    (hrun : (cellsToOpen who ids .write).run s = (.ok cells, s')) :
    Grown (s.fresh who ids) s s' ∧ s'.Guarded G := by
  induction ids generalizing s cells with
  | nil =>
    cases hrun
    exact ⟨(fresh_nil s' who).symm ▸ .refl s', hg⟩
  | cons first rest ih =>
    obtain ⟨hnew, hnodup⟩ := List.nodup_cons.1 hnodup
    obtain ⟨c, isNew, s₁, cells', hfirst, hrest⟩ := run_cellsToOpen_cons hrun
    have hgrown := grown_findOrAdd hdown hfirst
    have hg₁ := Guarded.of_findOrAdd hg hfirst
    have hdown₁ : s₁.locks.readonly = false := hgrown.settings.readonly.trans hdown
    obtain ⟨hgrown', hg'⟩ := ih hnodup hg₁ hdown₁ hrest
    -- the vertex of the first identifier is none of the others
    have hfresh : s.fresh who (first :: rest) = s.fresh who [first] ++ s₁.fresh who rest := by
      have hsame : ∀ id ∈ rest, (s₁.lookupKey (.of id)).isNone = (s.lookupKey (.of id)).isNone := by
        intro id hm
        rcases run_findOrAdd hfirst with ⟨_, rfl, _⟩ | ⟨_, hnone, _, rfl⟩
        · rfl
        · rw [lookupKey_addCell]
          split
          next hkey =>
            have hlast := id_of_cellsToOpen hdown₁ hrest id hm s.cells.size
              (by rw [size_cells_addCell]; exact Nat.lt_succ_self _)
              (by rw [lookupKey_addCell, if_pos hkey])
            rw [cell_addCell, if_pos rfl] at hlast
            have hid : first = id := hlast
            exact absurd (hid ▸ hm) hnew
          next => rfl
      simp only [fresh, hdown, hdown₁, Bool.false_eq_true, if_false]
      rw [← List.map_append, List.filter_congr hsame, ← List.filter_append]
      rfl
    rw [hfresh]
    exact ⟨hgrown.trans hgrown', hg'⟩

/-- What comes once all vertices are held is final. -/
theorem final_promoteAll (cells : List CellId) (mode : LockMode) (guards : List Guard) :
    Final (do
      cells.forM fun c =>
        if mode = .writable then update (·.modifyData c (·.promote who.now)) else pure ()
      return cells.filterMap fun c => guards.find? fun g => g.item.slot == c) := by
  refine avoids_bind (avoids_forM fun c => ?_) fun _ => avoids_pure _
  split
  · exact avoids_update _
  · exact avoids_pure ()

theorem careful_openAll {ids : List String} {mode : OpenMode} {lockMode : LockMode}
    (hmode : mode ≠ .write) : Careful agree G who checked [] (openAll who ids mode lockMode) := by
  have hcells : cellsToOpen who ids mode = ids.mapM find := by
    cases mode with
    | write => exact absurd rfl hmode
    | readonly => rfl
    | append => rfl
  rw [openAll, hcells]
  refine careful_labelling_bind (labelling_mapM labelling_find)
    (avoids_mapM fun id => (final_find id).settled) fun cells _ => ?_
  exact careful_acquireMany_bind fun guards =>
    (final_promoteAll cells lockMode guards).settled

theorem careful_openAll_write {ids : List String} (hnodup : ids.Nodup) :
    Careful agree G who True ids (openAll who ids .write .writable) := by
  intro s e s' hs hg hchecked hrun hsafe
  rw [openAll, run_bind] at hrun
  cases hrun₁ : (cellsToOpen who ids .write).run s with
  | mk r s₁ =>
    rw [hrun₁] at hrun
    cases r with
    | error e₁ =>
      cases hrun
      have hsettled : Settled (cellsToOpen who ids .write) := avoids_mapM fun id =>
        avoids_bind (final_findOrAdd id .real).settled fun _ => avoids_pure _
      rw [hsettled s e _ hrun₁] at hsafe
      cases hsafe
    | ok cells =>
      obtain ⟨hgrown, hg₁⟩ := grown_cellsToOpen hnodup hg (hchecked trivial) hrun₁
      exact hgrown.trans_nil (grown_acquireMany_bind
        (fun guards => (final_promoteAll cells .writable guards).settled) hg₁ hrun hsafe)

theorem nodup_of_repeated? {seen ids : List String} (h : repeated? seen ids = none) :
    ids.Nodup ∧ ∀ id ∈ ids, id ∉ seen := by
  induction ids generalizing seen with
  | nil => exact ⟨List.nodup_nil, fun id hm => absurd hm List.not_mem_nil⟩
  | cons id rest ih =>
    rw [repeated?] at h
    split at h
    next => cases h
    next hnew =>
      obtain ⟨hnodup, hrest⟩ := ih h
      have hid : id ∉ rest := fun hm => hrest id hm List.mem_cons_self
      refine ⟨List.nodup_cons.2 ⟨hid, hnodup⟩, fun id' hm => ?_⟩
      rcases List.mem_cons.1 hm with rfl | hm
      · simpa using hnew
      · exact fun hs => hrest id' hm (List.mem_cons_of_mem id hs)

theorem careful_openVertices (ids : List String) (mode : OpenMode) :
    Careful agree G who checked (if mode = .write then ids else [])
      (openVertices who ids mode) := by
  unfold openVertices
  cases hrepeated : repeated? [] ids with
  | some id => exact (avoids_fail rfl).careful
  | none =>
    cases mode with
    | readonly => exact careful_openAll fun e => nomatch e
    | append => exact careful_checkWritable_bind (careful_openAll fun e => nomatch e)
    | write =>
      exact careful_checkWritable_bind (careful_openAll_write (nodup_of_repeated? hrepeated).1)

end Arcbase.Action
