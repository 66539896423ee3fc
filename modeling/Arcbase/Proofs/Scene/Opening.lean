import Arcbase.Proofs.Action.Handles
import Arcbase.Proofs.Scene.Moving
set_option autoImplicit false

/-!
# The moves of creating, opening and handles

Opening and relaxing leave other guards than they find; everything else that is done here
is steady.  No arcs are written, and a vertex that is registered on the way is real.
-/

namespace Arcbase.Action

open Store

variable {agree : Agreement} {D : String → Prop} {G : List Guard} {who : Caller} {g : Guard}

/-- No arcs are written, whatever the answer. -/
abbrev Arcless {α : Type} : α → Prop := fun _ => False

/-! ## Creating -/

theorem steady_setType {c : CellId} {code : Option LabelCode} :
    Steady agree D G (fun _ => True) (update (·.modifyData c fun d => { d with type := code }))
      Arcless fun _ _ => True :=
  moving_attributes (fun _ => ⟨rfl, rfl, rfl, rfl, rfl⟩) (fun _ => .inl rfl) frameStable_true

theorem steady_encodeTypes {type : Option String} :
    Steady agree D G (fun _ => True) (type.mapM encodeType) Arcless fun _ _ => True := by
  cases type with
  | none => exact steady_pure fun _ h => h
  | some label =>
    exact .bind (steady_encodeType frameStable_true) fun code => steady_pure fun _ h => h

theorem steady_findOrAdd_new {id : String} :
    Steady agree D G (fun _ => True) (findOrAdd who id .real) Arcless fun found =>
      AllLive [found.1] :=
  (steady_findOrAdd_real settings_true []).weaken (fun _ _ => ⟨trivial, allLive_nil⟩)
    (fun _ h => h) fun _ _ h => h.2

theorem steady_create (id : String) (type : Option String) :
    Steady agree D G (fun _ => True) (create who id type) Arcless fun _ _ => True := by
  unfold create
  refine .bind (moving_checkWritable.weaken (fun _ h => h) (fun _ h => h) fun _ _ h => h.1)
    fun _ => ?_
  refine .bind steady_encodeTypes fun code => ?_
  refine .bind steady_findOrAdd_new fun (c, isNew) => ?_
  refine steady_holding (Q := fun _ _ => True) (fun s hl => hl c List.mem_cons_self)
    (frameStable_allLive _) fun g _ => ?_
  refine Moving.weaken (P := fun _ => True) ?_ (fun _ _ => trivial) (fun _ h => h) fun _ _ h => h
  -- what follows once the type is known not to clash
  have hend : ∀ d : VertexData, Steady agree D (g :: G) (fun _ => True)
      (do
        if code.isSome then update (·.modifyData c fun d => { d with type := code })
        update (·.modifyData c (·.promote who.now))
        return if d.manifestation = .virtual then 1 else 0) Arcless fun _ _ => True := by
    intro d
    have hlast : Steady agree D (g :: G) (fun _ => True)
        (do
          update (·.modifyData c (·.promote who.now))
          return if d.manifestation = .virtual then 1 else 0) Arcless fun _ _ => True :=
      .bind (moving_promote frameStable_true) fun _ => steady_pure fun _ h => h
    dsimp only
    split
    · exact .bind steady_setType fun _ => hlast
    · exact hlast
  split
  · exact .bind steady_setType fun _ => steady_pure fun _ h => h
  · refine .bind moving_read_any fun d => ?_
    dsimp only
    split
    · split
      · exact .bind moving_read_any fun _ => .bind moving_fail fun _ => hend d
      · exact hend d
    · exact hend d

/-! ## Opening -/

theorem moving_acquireExisting {mode : LockMode} (id : String) :
    Moving agree D ⟨G, []⟩ (fun _ => True) (acquireExisting who id mode) Arcless
      (fun g => ⟨g :: G, []⟩) ⟨G, []⟩ fun _ _ => True := by
  unfold acquireExisting
  refine .bind ((steady_find []).weaken (fun _ _ => allLive_nil) (fun _ h => h) fun _ _ h => h)
    fun c => ?_
  exact (moving_acquire (fun s hl => hl c List.mem_cons_self) (frameStable_allLive _)).weaken
    (fun _ h => h) (fun _ h => h) fun _ _ _ => trivial

theorem moving_openVertex (id : String) (mode : OpenMode) :
    Moving agree D ⟨G, []⟩ (fun _ => True) (openVertex who id mode) Arcless
      (fun g => ⟨g :: G, []⟩) ⟨G, []⟩ fun _ _ => True := by
  have hpromote : ∀ (g : Guard) (c : CellId),
      Moving agree D ⟨g :: G, []⟩ (fun _ => True)
        (do
          update (·.modifyData c (·.promote who.now))
          return g) Arcless (fun g => ⟨g :: G, []⟩) ⟨G, []⟩ fun _ _ => True := fun g c =>
    .bind (moving_promote frameStable_true) fun _ =>
      moving_pure (K := fun g => ⟨g :: G, []⟩) fun _ h => h
  cases mode with
  | readonly => exact moving_acquireExisting id
  | append =>
    refine .bind (moving_checkWritable.weaken (fun _ h => h) (fun _ h => h) fun _ _ h => h.1)
      fun _ => ?_
    exact .bind (moving_acquireExisting id) fun g => hpromote g _
  | write =>
    refine .bind (moving_checkWritable.weaken (fun _ h => h) (fun _ h => h) fun _ _ h => h.1)
      fun _ => ?_
    refine .bind steady_findOrAdd_new fun (c, _) => ?_
    refine .bind (moving_acquire (fun s hl => hl c List.mem_cons_self) (frameStable_allLive _))
      fun g => ?_
    exact (hpromote g c).weaken (fun _ _ => trivial) (fun _ h => h) fun _ _ h => h

theorem steady_cellsToOpen (ids : List String) (mode : OpenMode) :
    Steady agree D G (fun _ => True) (cellsToOpen who ids mode) Arcless fun cells =>
      AllLive cells := by
  refine (moving_mapM_cells (R := fun _ => True) (fun id _ cs => ?_) []).weaken
    (fun _ _ => ⟨trivial, allLive_nil⟩) (fun _ h => h) fun cells _ h => List.append_nil cells ▸ h.2
  cases mode with
  | write =>
    exact .bind (steady_findOrAdd_real settings_true cs) fun found => steady_pure fun _ h => h
  | readonly =>
    exact (steady_find cs).weaken (fun _ h => h.2) (fun _ h => h) fun _ _ h => ⟨trivial, h⟩
  | append =>
    exact (steady_find cs).weaken (fun _ h => h.2) (fun _ h => h) fun _ _ h => ⟨trivial, h⟩

theorem moving_openAll (ids : List String) (mode : OpenMode) (lockMode : LockMode) :
    Moving agree D ⟨G, []⟩ (fun _ => True) (openAll who ids mode lockMode) Arcless
      (fun new => ⟨new ++ G, []⟩) ⟨G, []⟩ fun _ _ => True := by
  refine .bind (steady_cellsToOpen ids mode) fun cells => ?_
  refine .bind (moving_acquireMany (fun s hl => hl) (frameStable_allLive _)) fun new => ?_
  refine .intro (fun _ h => h.1) fun hgiven => ?_
  refine .bind (M := fun _ _ => True) (K := fun _ => ⟨new ++ G, []⟩) ?_ fun _ => ?_
  · refine (moving_forM (P := fun _ => True) fun c hc => ?_).weaken (fun _ _ => trivial)
      (fun _ h => h) fun _ _ h => h
    split
    · exact moving_promote frameStable_true
    · exact moving_pure (K := fun _ => ⟨new ++ G, []⟩) (Q := fun _ _ => True) fun _ h => h
  · -- the handles are the guards that have been taken, in another order
    intro s r s' _ hg _ hrun
    cases hrun
    exact ⟨(move_perm ((perm_handles hgiven).symm.append_right G) hg).moves, trivial⟩

theorem moving_openVertices (ids : List String) (mode : OpenMode) :
    Moving agree D ⟨G, []⟩ (fun _ => True) (openVertices who ids mode) Arcless
      (fun new => ⟨new ++ G, []⟩) ⟨G, []⟩ fun _ _ => True := by
  have hchecked : ∀ mode lockMode, Moving agree D ⟨G, []⟩ (fun _ => True)
      (checkWritable >>= fun _ => openAll who ids mode lockMode) Arcless
      (fun new => ⟨new ++ G, []⟩) ⟨G, []⟩ fun _ _ => True := fun mode lockMode =>
    .bind (moving_checkWritable.weaken (fun _ h => h) (fun _ h => h) fun _ _ h => h.1)
      fun _ => moving_openAll ids mode lockMode
  unfold openVertices
  split
  next => exact moving_fail
  next =>
    cases mode with
    | readonly => exact moving_openAll ids .readonly .readonly
    | append => exact hchecked .append .writable
    | write => exact hchecked .write .writable

/-! ## Working through a handle -/

theorem steady_writing {α : Type} {a : Action α} {A : α → Prop} {Q : α → Store → Prop}
    (h : Steady agree D G (fun _ => True) a A Q) :
    Steady agree D G (fun _ => True) (requireWritable g >>= fun _ => a) A Q := by
  refine .bind (M := fun _ _ => True) ?_ fun _ => h
  unfold requireWritable
  split
  · exact steady_pure fun _ h => h
  · exact moving_fail

theorem steady_setProperty (name : String) (value : PropertyValue) :
    Steady agree D G (fun _ => True) (setProperty who g name value) Arcless fun _ _ => True :=
  steady_writing (moving_attributes (fun _ => ⟨rfl, rfl, rfl, rfl, rfl⟩) (fun _ => .inl rfl)
    frameStable_true)

theorem steady_removeProperty (name : String) :
    Steady agree D G (fun _ => True) (removeProperty who g name) Arcless fun _ _ => True := by
  refine steady_writing (.bind moving_read_any fun old => ?_)
  dsimp only
  split
  · exact .bind (moving_attributes (fun _ => ⟨rfl, rfl, rfl, rfl, rfl⟩) (fun _ => .inl rfl)
      frameStable_true) fun _ => steady_pure fun _ h => h
  · exact steady_pure fun _ h => h

theorem steady_setVector (vector : List Binary32) :
    Steady agree D G (fun _ => True) (setVector who g vector) Arcless fun _ _ => True := by
  refine steady_writing ?_
  split
  · exact moving_attributes (fun _ => ⟨rfl, rfl, rfl, rfl, rfl⟩) (fun _ => .inl rfl)
      frameStable_true
  · exact moving_fail

theorem steady_setExpiration (time : UInt32) :
    Steady agree D G (fun _ => True) (setExpiration g time) Arcless fun _ _ => True :=
  steady_writing (moving_update fun s _ _ _ => ⟨(Move.moves (.attributes _ _ s g.item.slot
    (f := fun d => { d with expires := some time }) (fun _ => ⟨rfl, rfl, rfl, rfl, rfl⟩)
    fun _ => .inl rfl)).tail (.schedule ..), trivial⟩)

/-! ## Changes of access -/

/-- Another hold on the vertex of a guard, at least as strong. -/
theorem moving_escalate :
    Moving agree D ⟨g :: G, []⟩ (fun _ => True) (escalate g) Arcless (fun g' => ⟨g' :: G, []⟩)
      ⟨g :: G, []⟩ fun _ _ => True := by
  intro s r s' _ hg _ hrun
  simp only [escalate, run_ofFun] at hrun
  cases he : s.locks.escalate g with
  | error e =>
    rw [he] at hrun
    cases hrun
    exact .refl
  | ok p =>
    obtain ⟨g', locks⟩ := p
    rw [he] at hrun
    cases hrun
    obtain ⟨_, hacc, rfl⟩ := LockTable.accounts_escalate hg.accounts he
    refine ⟨Move.moves (.locks ⟨hacc, fun g' hm => ?_⟩ (fun c hw => ?_) (fun g' hm => ?_)
      fun _ hc => .inl hc), trivial⟩
    · rcases List.mem_cons.1 hm with rfl | hm
      · exact hg.item g List.mem_cons_self
      · exact hg.item g' (List.mem_cons_of_mem g hm)
    · exact written_cons.2 ((written_cons.1 hw).imp_left fun h => ⟨rfl, h.2⟩)
    · rcases List.mem_cons.1 hm with rfl | hm
      · exact .inr ⟨g, List.mem_cons_self, rfl⟩
      · exact .inr ⟨g', List.mem_cons_of_mem g hm, rfl⟩

theorem run_relax (s : Store) (g : Guard) :
    (relax g).run s =
      match (s.surrender g).locks.relax g with
      | (none, locks) => (.ok none, { s.surrender g with locks })
      | (some g', locks) =>
        if ((s.surrender g).data g'.item.slot).deleted then
          (.error (.key (.removedOnRelax g'.item.label)),
            ({ s.surrender g with locks } : Store).drop g')
        else (.ok (some g'), { s.surrender g with locks }) := by
  have hgiven : (if g.isWritable && s.locks.isOutermost g then s.collectOrphan g.item.slot else s) =
      s.surrender g := rfl
  simp only [relax, run_bind, update, run_ofFun, hgiven]
  cases (s.surrender g).locks.relax g with
  | mk relaxed locks =>
    cases relaxed with
    | none => rfl
    | some g' =>
      simp only [run_bind, read, run_ofFun]
      split
      next hdeleted => exact (if_pos hdeleted).symm
      next hkept => exact (if_neg hkept).symm

/-- The guard is given up, and a weaker one comes back unless the vertex is gone. -/
theorem moving_relax :
    Moving agree D ⟨g :: G, []⟩ (fun _ => True) (relax g) Arcless (fun r => ⟨r.toList ++ G, []⟩)
      ⟨G, []⟩ fun _ _ => True := by
  intro s r s' _ hg _ hrun
  have hg₁ : (s.surrender g).Guarded (g :: G) :=
    hg.steps (steps_surrender hg) (locks_surrender s g)
  rw [run_relax] at hrun
  cases hr : (s.surrender g).locks.relax g with
  | mk relaxed locks =>
    rw [hr] at hrun
    obtain ⟨_, hacc, hrelaxed⟩ := LockTable.accounts_relax hg₁.accounts hr
    cases relaxed with
    | none =>
      cases hrun
      exact ⟨Move.moves (.give
        ⟨hacc, fun g' hm => hg₁.item g' (List.mem_cons_of_mem g hm)⟩
        fun _ hm => absurd hm List.not_mem_nil), trivial⟩
    | some g' =>
      obtain rfl : g' = { g with hold := .reader } := hrelaxed g' rfl
      have hg₂ : Guarded { s.surrender g with locks } ({ g with hold := .reader } :: G) := by
        refine ⟨hacc, fun g' hm => ?_⟩
        rcases List.mem_cons.1 hm with rfl | hm
        · exact hg₁.item g List.mem_cons_self
        · exact hg₁.item g' (List.mem_cons_of_mem g hm)
      dsimp only at hrun
      split at hrun
      · cases hrun
        have hreader : ({ g with hold := .reader } : Guard).hold ≠ .writer := nofun
        have hdropped := (drop_spec (W := fun _ => True) hg₂ fun _ => trivial).2
        rw [drop_eq_surrender, surrender_of_ne_writer hreader] at hdropped ⊢
        exact Move.moves (.give hdropped fun _ hm => absurd hm List.not_mem_nil)
      next hkept =>
        cases hrun
        refine ⟨Move.moves (.give hg₂ fun g' hm => ?_), trivial⟩
        rw [List.mem_singleton.1 hm]
        exact ⟨rfl, (hg₁.item g List.mem_cons_self).1, by simpa using hkept⟩

end Arcbase.Action
