import Arcbase.Proofs.Action.Deleting
import Arcbase.Proofs.Action.Tending
set_option autoImplicit false

/-!
# Working through a guard loses no expiration

Attributes and access may change through a handle without a change of what expires.  The
time at which a vertex expires is set through the guard of a handle (`run_setExpiration`) or
one that is taken for it (`run_markExpiring`).  It is scheduled with the change, so that no
expiration is lost as long as the vertex is in the graph.
-/

namespace Arcbase.Action

open Store

variable {agree : Agreement} {pending : Expiring → Option UInt32} {G : List Guard} {who : Caller}
  {s s' : Store} {id : String} {time : UInt32} {P : Store → Prop}

/-! ## Attributes and access -/

theorem tending_requireWritable (g : Guard) :
    Tending agree pending P (requireWritable g) fun _ => P := by
  unfold requireWritable
  split
  · exact tending_pure fun _ h => h
  · exact tending_fail

theorem tending_setProperty (g : Guard) (name : String) (value : PropertyValue) :
    Tending agree pending (fun _ => True) (setProperty who g name value) fun _ _ => True :=
  tending_bind (tending_requireWritable g) fun _ =>
    tending_modifyData (fun _ => ⟨rfl, rfl, rfl, rfl, rfl⟩) (fun _ => rfl) frameStable_true

theorem tending_removeProperty (g : Guard) (name : String) :
    Tending agree pending (fun _ => True) (removeProperty who g name) fun _ _ => True := by
  refine tending_bind (tending_requireWritable g) fun _ => ?_
  refine tending_bind tending_read_any fun old => ?_
  dsimp only
  split
  · exact tending_bind (tending_modifyData (fun _ => ⟨rfl, rfl, rfl, rfl, rfl⟩) (fun _ => rfl)
      frameStable_true) fun _ => tending_pure fun _ h => h
  · exact tending_pure fun _ h => h

theorem tending_setVector (g : Guard) (vector : List Binary32) :
    Tending agree pending (fun _ => True) (setVector who g vector) fun _ _ => True := by
  refine tending_bind (tending_requireWritable g) fun _ => ?_
  split
  · exact tending_modifyData (fun _ => ⟨rfl, rfl, rfl, rfl, rfl⟩) (fun _ => rfl) frameStable_true
  · exact tending_fail

theorem tending_escalate (g : Guard) :
    Tending agree pending (fun _ => True) (escalate g) fun _ _ => True := by
  refine tending_ofFun fun s hs ht _ => ?_
  cases s.locks.escalate g with
  | error e => exact ⟨hs, ht, .refl s, fun _ _ => trivial⟩
  | ok p =>
    obtain ⟨hs', ht', hk⟩ := tends_locks hs ht p.2
    exact ⟨hs', ht', hk, fun _ _ => trivial⟩

/-- Taking an orphan out of the graph. -/
theorem tends_collectOrphan (hs : s.Sound agree) (ht : s.Timely pending) (c : CellId) :
    (s.collectOrphan c).Sound agree ∧ (s.collectOrphan c).Timely pending ∧
      s.Kept (s.collectOrphan c) := by
  have hcalm := calm_collectOrphan s c
  exact ⟨sound_collectOrphan hs c, ht.calm hcalm,
    hcalm.kept fun c' _ => (sameDates_collectOrphan s c).expires c'⟩

theorem tending_relax (g : Guard) :
    Tending agree pending (fun _ => True) (relax g) fun _ _ => True := by
  refine tending_bind (M := fun _ _ => True) (tending_ofFun fun s hs ht _ => ?_) fun _ => ?_
  · dsimp only
    split
    · obtain ⟨hs', ht', hk⟩ := tends_collectOrphan hs ht g.item.slot
      exact ⟨hs', ht', hk, fun _ _ => trivial⟩
    · exact ⟨hs, ht, .refl s, fun _ _ => trivial⟩
  refine tending_bind (M := fun _ _ => True) (tending_ofFun fun s hs ht _ => ?_) fun relaxed => ?_
  · obtain ⟨hs', ht', hk⟩ := tends_locks hs ht (s.locks.relax g).2
    exact ⟨hs', ht', hk, fun _ _ => trivial⟩
  cases relaxed with
  | none => exact tending_pure fun _ h => h
  | some g =>
    refine tending_bind tending_read_any fun gone => ?_
    split
    · refine tending_bind (M := fun _ _ => True) (tending_ofFun fun s hs ht _ => ?_) fun _ =>
        tending_fail
      obtain ⟨hs', ht', hk⟩ := tends_drop hs ht g
      exact ⟨hs', ht', hk, fun _ _ => trivial⟩
    · exact tending_pure fun _ h => h

/-! ## Times -/

theorem run_setExpiration (g : Guard) (time : UInt32) (s : Store) :
    (setExpiration g time).run s =
      if g.isWritable then
        (.ok (), (s.expireAt g.item.slot time).scheduleAt (.vertex g.item.label) time)
      else (.error (.access .notHeld), s) := by
  rw [setExpiration, requireWritable]
  cases g.isWritable <;> rfl

/-- A time that is set through a guard is scheduled. -/
theorem timely_setExpiration {g : Guard} (hs : s.Sound agree) (hg : g.item = s.lockItem g.item.slot)
    (hlive : s.Live g.item.slot) (ht : s.Timely pending) :
    ((s.expireAt g.item.slot time).scheduleAt (.vertex g.item.label) time).Timely pending := by
  rw [show g.item.label = (s.cell g.item.slot).id from congrArg LockItem.label hg]
  exact ht.mark hs.placed hlive time

theorem expires_setExpiration {g : Guard} {c : CellId} (hne : g.item.slot ≠ c) :
    (((s.expireAt g.item.slot time).scheduleAt (.vertex g.item.label) time).data c).expires =
      (s.data c).expires := by
  have hdata := data_modifyData_ite s g.item.slot (fun d => { d with expires := some time }) c
  rw [if_neg fun e => hne e.1] at hdata
  exact congrArg VertexData.expires hdata

/-- Marking a vertex fails without a trace, or holds the vertex while it sets the time. -/
theorem run_markExpiring {r : Except Error Unit} (hg : s.Guarded G)
    (hrun : (markExpiring who id time).run s = (r, s')) :
    (∃ e, r = .error e) ∧ s' = s ∨ ∃ c g locks, HeldRun who id s c g locks ∧ r = .ok () ∧
      s' = ((({ s with locks } : Store).expireAt g.item.slot time).scheduleAt
        (.vertex g.item.label) time).drop g := by
  rw [markExpiring, run_bind, run_checkWritable] at hrun
  cases hreadonly : s.locks.readonly with
  | true =>
    rw [hreadonly, if_pos rfl] at hrun
    cases hrun
    exact .inl ⟨⟨_, rfl⟩, rfl⟩
  | false =>
    rw [hreadonly, if_neg Bool.false_ne_true] at hrun
    simp only [acquireExisting, run_bind, run_find] at hrun
    cases hfound : s.lookup id with
    | none =>
      rw [hfound] at hrun
      cases hrun
      exact .inl ⟨⟨_, rfl⟩, rfl⟩
    | some c =>
      rw [hfound] at hrun
      simp only [acquire, run_ofFun] at hrun
      cases hacq : s.locks.acquire who.thread (s.lockItem c) .writable with
      | error cause =>
        rw [hacq] at hrun
        cases hrun
        exact .inl ⟨⟨_, rfl⟩, rfl⟩
      | ok p =>
        obtain ⟨g, locks⟩ := p
        have held : HeldRun who id s c g locks := ⟨hreadonly, hfound, hacq⟩
        have hwritable : g.isWritable = true := by
          rw [Guard.isWritable, held.writer hg]
          rfl
        rw [hacq] at hrun
        simp only [ensuring, run_ofFun, run_setExpiration, if_pos hwritable] at hrun
        cases hrun
        exact .inr ⟨c, g, locks, held, rfl, rfl⟩

end Arcbase.Action
