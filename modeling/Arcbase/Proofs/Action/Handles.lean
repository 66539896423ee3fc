import Arcbase.Proofs.Action.Opening
set_option autoImplicit false

/-!
# Working through a handle is orderly

The guard of a handle is one of those that are held.  A change through the handle
takes a writer's guard, so that its vertex is among those its thread may write.
Escalating, relaxing and closing put another guard, or none, in its place.
-/

namespace Arcbase.Action

open Store

variable {agree : Agreement} {W : CellId → Prop} {G : List Guard} {who : Caller} {g : Guard}

/-! ## Changes -/

theorem orderly_requireWritable :
    Orderly agree W G (fun _ => True) (requireWritable g) fun _ _ => g.hold = .writer := by
  unfold requireWritable
  split
  next h => exact orderly_pure fun _ _ => by simpa [Guard.isWritable] using h
  next => exact turns_fail

/-- An action that takes a writer's guard. -/
theorem orderly_writing {α : Type} {a : Action α} {Q : α → Store → Prop}
    (h : g.hold = .writer → Orderly agree W G (fun _ => True) a Q) :
    Orderly agree W G (fun _ => True) (requireWritable g >>= fun _ => a) Q :=
  orderly_bind orderly_requireWritable fun _ =>
    .intro (fun _ hg => hg) fun hg => (h hg).weaken (fun _ _ => trivial) fun _ _ hq => hq

theorem orderly_setProperty (hW : g.hold = .writer → W g.item.slot) (name : String)
    (value : PropertyValue) :
    Orderly agree W G (fun _ => True) (setProperty who g name value) fun _ _ => True :=
  orderly_writing fun hg => turns_attributes (hW hg) fun _ => ⟨rfl, rfl, rfl, rfl, rfl⟩

theorem orderly_removeProperty (hW : g.hold = .writer → W g.item.slot) (name : String) :
    Orderly agree W G (fun _ => True) (removeProperty who g name) fun _ _ => True := by
  refine orderly_writing fun hg => orderly_bind orderly_read_any fun old => ?_
  dsimp only
  split
  · exact orderly_bind (turns_attributes (hW hg) fun _ => ⟨rfl, rfl, rfl, rfl, rfl⟩) fun _ =>
      orderly_pure fun _ _ => trivial
  · exact orderly_pure fun _ _ => trivial

theorem orderly_setVector (hW : g.hold = .writer → W g.item.slot) (vector : List Binary32) :
    Orderly agree W G (fun _ => True) (setVector who g vector) fun _ _ => True := by
  refine orderly_writing fun hg => ?_
  split
  · exact turns_attributes (hW hg) fun _ => ⟨rfl, rfl, rfl, rfl, rfl⟩
  · exact turns_fail

/-- Changing when a vertex expires, with its entry in the schedule. -/
theorem turns_expires {c : CellId} {f : VertexData → VertexData} (hW : W c) (hf : KeepsArcs f)
    (item : Expiring) (time : UInt32) {L : List Guard} :
    Turns agree W G (fun _ => True)
      (update fun s => (s.modifyData c f).scheduleAt item time) (fun _ => G) L fun _ _ => True :=
  turns_update fun _ _ _ =>
    ⟨.tail (.single (.attributes hW hf)) (.schedule _ _), rfl, trivial⟩

theorem orderly_setExpiration (hW : g.hold = .writer → W g.item.slot) (time : UInt32) :
    Orderly agree W G (fun _ => True) (setExpiration g time) fun _ _ => True :=
  orderly_writing fun hg =>
    turns_expires (f := fun d => { d with expires := some time }) (hW hg)
      (fun _ => ⟨rfl, rfl, rfl, rfl, rfl⟩) _ _

/-! ## Changes of access -/

theorem turns_escalate :
    Turns agree W (g :: G) (fun _ => True) (escalate g) (fun g' => g' :: G) (g :: G)
      fun g' _ => g'.thread = g.thread := by
  intro s r s' _ hg _ hrun
  simp only [escalate, run_ofFun] at hrun
  cases he : s.locks.escalate g with
  | error e =>
    rw [he] at hrun
    cases hrun
    exact ⟨.refl, hg⟩
  | ok p =>
    obtain ⟨g', t⟩ := p
    rw [he] at hrun
    cases hrun
    obtain ⟨_, hacc, rfl⟩ := LockTable.accounts_escalate hg.accounts he
    refine ⟨.single (.locks s t), ⟨hacc, fun g' hm => ?_⟩, rfl⟩
    rcases List.mem_cons.1 hm with rfl | hm
    · exact hg.item g List.mem_cons_self
    · exact hg.item g' (List.mem_cons_of_mem g hm)

theorem turns_close (hW : g.hold = .writer → W g.item.slot) :
    Turns agree W (g :: G) (fun _ => True) (close g) (fun _ => G) G fun _ _ => True := by
  intro s r s' _ hg _ hrun
  cases hrun
  obtain ⟨st, hg'⟩ := drop_spec hg hW
  exact ⟨st, hg', trivial⟩

/-- Taking the vertex of a writer's last guard out of the graph if it is an orphan. -/
theorem turns_collect (hW : g.hold = .writer → W g.item.slot) {L : List Guard} :
    Turns agree W (g :: G) (fun _ => True)
      (update fun s =>
        if g.isWritable && s.locks.isOutermost g then s.collectOrphan g.item.slot else s)
      (fun _ => g :: G) L fun _ _ => True := by
  intro s r s' _ hg _ hrun
  cases hrun
  by_cases hlast : (g.isWritable && s.locks.isOutermost g) = true
  · have hwriter : g.hold = .writer := by
      simp only [Bool.and_eq_true, Guard.isWritable, beq_iff_eq] at hlast
      exact hlast.1
    obtain ⟨st, hl⟩ := steps_collectOrphan (hW hwriter) (hg.item g List.mem_cons_self).1
    simp only [hlast, if_true]
    exact ⟨st, hg.steps st hl, trivial⟩
  · simp only [hlast, if_false, Bool.false_eq_true]
    exact ⟨.refl, hg, trivial⟩

theorem turns_relaxLocks {L : List Guard} :
    Turns agree W (g :: G) (fun _ => True)
      (ofFun fun s =>
        let (r, locks) := s.locks.relax g
        (.ok r, { s with locks })) (fun r => r.toList ++ G) L
      fun r _ => ∀ g' ∈ r, g' = { g with hold := .reader } := by
  intro s r s' _ hg _ hrun
  cases hr : s.locks.relax g with
  | mk relaxed t =>
    simp only [run_ofFun, hr] at hrun
    cases hrun
    obtain ⟨_, hacc, hrelaxed⟩ := LockTable.accounts_relax hg.accounts hr
    refine ⟨.single (.locks s t), ⟨hacc, fun g' hm => ?_⟩, hrelaxed⟩
    rcases List.mem_append.1 hm with hm | hm
    · rw [hrelaxed g' (by simpa using hm)]
      exact hg.item g List.mem_cons_self
    · exact hg.item g' (List.mem_cons_of_mem g hm)

theorem turns_relax (hW : g.hold = .writer → W g.item.slot) :
    Turns agree W (g :: G) (fun _ => True) (relax g) (fun r => r.toList ++ G) G
      fun r _ => ∀ g' ∈ r, g'.thread = g.thread := by
  refine .bind (turns_collect hW) fun _ => .bind turns_relaxLocks fun relaxed => ?_
  refine .intro (fun _ h => h) fun hrelaxed => ?_
  cases relaxed with
  | none =>
    exact turns_pure (K := fun r : Option Guard => r.toList ++ G)
      (Q := fun r _ => ∀ g' ∈ r, g'.thread = g.thread) fun _ _ g' hm => by simp at hm
  | some g' =>
    obtain rfl : g' = { g with hold := .reader } := hrelaxed g' rfl
    refine .bind (M := fun _ _ => True) (K := fun _ => { g with hold := .reader } :: G) ?_
      fun deleted => ?_
    · intro s r s' _ hg _ hrun
      cases hrun
      exact ⟨.refl, hg, trivial⟩
    · split
      · refine .bind (turns_close (g := { g with hold := .reader }) fun h => by cases h) fun _ => ?_
        exact turns_fail
      · refine turns_pure (x := some { g with hold := .reader })
          (K := fun r : Option Guard => r.toList ++ G)
          (Q := fun r _ => ∀ g' ∈ r, g'.thread = g.thread) fun _ _ g' hm => ?_
        rw [← Option.some.inj hm]

end Arcbase.Action
