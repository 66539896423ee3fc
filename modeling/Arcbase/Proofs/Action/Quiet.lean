import Arcbase.Proofs.Action.Orderly
import Arcbase.Proofs.Lock.Requests
set_option autoImplicit false

/-!
# Quiet actions

A *quiet* action changes nothing but the locks, and gives back all guards that it
takes, whether it succeeds or fails.  Readonly access that is given up never takes a
vertex out of the graph: a writer's guard is given for it only inside writable access,
and then it is not the last one (`drop_of_readonly`).
-/

namespace Arcbase.Action

open Store

variable {α β : Type} {agree : Agreement} {W : CellId → Prop} {G : List Guard}
  {P : Store → Prop} {who : Caller}

/-- The action changes nothing but the locks, for which the guards stay the same. -/
def Quiet (agree : Agreement) (G : List Guard) (P : Store → Prop) (a : Action α)
    (Q : α → Store → Prop) : Prop :=
  ∀ s r s', s.Sound agree → s.Guarded G → P s → a.run s = (r, s') →
    s' = { s with locks := s'.locks } ∧ s.locks.SameSettings s'.locks ∧ s'.Guarded G ∧
      ∀ x, r = .ok x → Q x s'

theorem Quiet.orderly {a : Action α} {Q : α → Store → Prop} (h : Quiet agree G P a Q) :
    Orderly agree W G P a Q := by
  intro s r s' hs hg hp hrun
  obtain ⟨hsame, _, hg', hq⟩ := h s r s' hs hg hp hrun
  refine ⟨?_, ?_⟩
  · rw [hsame]
    exact .single (.locks s _)
  · cases r with
    | error e => exact hg'
    | ok x => exact ⟨hg', hq x rfl⟩

theorem Quiet.weaken {P' : Store → Prop} {a : Action α} {Q Q' : α → Store → Prop}
    (h : Quiet agree G P a Q) (hpre : ∀ s, P' s → P s) (hpost : ∀ x s, Q x s → Q' x s) :
    Quiet agree G P' a Q' := by
  intro s r s' hs hg hp hrun
  obtain ⟨hsame, hset, hg', hq⟩ := h s r s' hs hg (hpre s hp) hrun
  exact ⟨hsame, hset, hg', fun x hx => hpost x s' (hq x hx)⟩

theorem sound_locks {s s' : Store} (h : s' = { s with locks := s'.locks })
    (hs : s.Sound agree) : s'.Sound agree := by
  rw [h]
  exact hs.withLocks _

theorem quiet_bind {a : Action α} {f : α → Action β} {M : α → Store → Prop}
    {Q : β → Store → Prop} (ha : Quiet agree G P a M)
    (hf : ∀ x, Quiet agree G (M x) (f x) Q) : Quiet agree G P (a >>= f) Q := by
  intro s r s' hs hg hp hrun
  rw [run_bind] at hrun
  cases hrun₁ : a.run s with
  | mk r₁ s₁ =>
    rw [hrun₁] at hrun
    obtain ⟨hsame₁, hset₁, hg₁, hm⟩ := ha s r₁ s₁ hs hg hp hrun₁
    cases r₁ with
    | error e =>
      cases hrun
      exact ⟨hsame₁, hset₁, hg₁, fun x hx => nomatch hx⟩
    | ok x =>
      obtain ⟨hsame₂, hset₂, hg₂, hq⟩ := hf x s₁ r s' (sound_locks hsame₁ hs) hg₁ (hm x rfl) hrun
      refine ⟨?_, hset₁.trans hset₂, hg₂, hq⟩
      rw [hsame₂, hsame₁]

theorem quiet_pure {x : α} {Q : α → Store → Prop} (h : ∀ s, P s → Q x s) :
    Quiet agree G P (pure x) Q := by
  intro s r s' _ hg hp hrun
  cases hrun
  exact ⟨rfl, .refl _, hg, fun y hy => Except.ok.inj hy ▸ h s hp⟩

theorem quiet_read {f : Store → α} {Q : α → Store → Prop}
    (h : ∀ s, s.Sound agree → P s → Q (f s) s) : Quiet agree G P (read f) Q := by
  intro s r s' hs hg hp hrun
  cases hrun
  exact ⟨rfl, .refl _, hg, fun y hy => Except.ok.inj hy ▸ h s hs hp⟩

theorem quiet_read_any {f : Store → α} : Quiet agree G P (read f) fun _ => P :=
  quiet_read fun _ _ hp => hp

theorem quiet_ofExcept {x : Except Error α} : Quiet agree G P (ofExcept x) fun _ => P := by
  intro s r s' _ hg hp hrun
  cases hrun
  exact ⟨rfl, .refl _, hg, fun _ _ => hp⟩

theorem quiet_fail {e : Error} {Q : α → Store → Prop} : Quiet agree G P (fail e) Q := by
  intro s r s' _ hg _ hrun
  cases hrun
  exact ⟨rfl, .refl _, hg, fun _ hx => nomatch hx⟩

/-- Readonly access is given up without a change of the graph. -/
theorem drop_of_readonly {s s' : Store} {me : Thread} {c : CellId} {g : Guard} {t : LockTable}
    (hg : s.locks.Accounts G) (hacq : s.locks.acquire me (s.lockItem c) .readonly = .ok (g, t))
    (hg' : s'.locks.Accounts (g :: G)) : s'.drop g = { s' with locks := s'.locks.release g } := by
  have hslot : g.item.slot = c := congrArg LockItem.slot (LockTable.acquire_ok hacq).2.1
  cases hhold : g.hold with
  | reader => simp only [drop, Guard.isWritable, hhold, beq_iff_eq, reduceCtorEq, Bool.and_eq_true,
      false_and, if_false]
  | writer =>
    have hheld : Guard.onSlot g.item.slot G ≠ [] :=
      hslot ▸ LockTable.held_of_acquire_readonly hg hacq hhold
    have hinner : s'.locks.isOutermost g = false := by
      rw [← Bool.not_eq_true, LockTable.isOutermost_iff hg' hhold]
      exact hheld
    simp only [drop, hinner, Bool.and_false, Bool.false_eq_true, if_false]

theorem quiet_holding {c : CellId} {body : Action α} {Q : α → Store → Prop}
    (hc : ∀ s, P s → c < s.cells.size) (hP : FrameStable P)
    (hbody : ∀ g, Quiet agree (g :: G) P body Q) :
    Quiet agree G P (holding who c .readonly body) fun _ => P := by
  intro s r s' hs hg hp hrun
  simp only [holding, acquire, run_bind, run_ofFun] at hrun
  cases hacq : s.locks.acquire who.thread (s.lockItem c) .readonly with
  | error e =>
    rw [hacq] at hrun
    cases hrun
    exact ⟨rfl, .refl _, hg, fun _ hx => nomatch hx⟩
  | ok p =>
    obtain ⟨g, t⟩ := p
    rw [hacq] at hrun
    have hg₁ := hg.acquire (hc s hp) hacq
    have hs₁ : Sound agree { s with locks := t } := hs.withLocks t
    cases hrun₂ : body.run { s with locks := t } with
    | mk r₂ s₂ =>
      simp only [ensuring, run_ofFun, hrun₂] at hrun
      cases hrun
      obtain ⟨hsame, hset, hg₂, _⟩ := hbody g _ _ _ hs₁ hg₁
        (hP _ _ (sameFrame_locks s t) hp) hrun₂
      have hdrop := drop_of_readonly hg.accounts hacq hg₂.accounts
      have hlast : s₂.drop g = { s with locks := (s₂.drop g).locks } := by
        rw [hdrop, hsame]
      refine ⟨hlast, ?_, ?_, fun _ _ => ?_⟩
      · rw [hdrop]
        exact ((LockTable.sameSettings_acquire hacq).trans hset).trans
          (LockTable.sameSettings_release _ g)
      · refine hg.transfer (.trans (.refl s) ?_) ?_ fun _ hm => hm
        · rw [hlast]
          exact (sameFrame_locks s _).extends
        · rw [hdrop]
          exact LockTable.accounts_release hg₂.accounts
      · rw [hlast]
        exact hP _ _ (sameFrame_locks s _) hp

theorem quiet_lookup (cs : List CellId) {id : String} :
    Quiet agree G (AllLive cs) (read (·.lookup id)) fun found => AllLive (found.toList ++ cs) := by
  refine quiet_read fun s hs hl => ?_
  cases hlook : s.lookup id with
  | none => exact hl
  | some c => exact allLive_cons.2 ⟨(hs.placed.of_lookup hlook).1, hl⟩

theorem quiet_find (cs : List CellId) {id : String} :
    Quiet agree G (AllLive cs) (find id) fun c => AllLive (c :: cs) := by
  refine quiet_bind (quiet_lookup cs) fun found => ?_
  cases found with
  | none => exact quiet_fail
  | some c => exact quiet_pure fun _ hl => hl

/-- Reading a vertex while it is held. -/
theorem quiet_holding_found {c : CellId} {body : Action α} {Q : α → Store → Prop}
    (hbody : ∀ g, Quiet agree (g :: G) (AllLive [c]) body Q) :
    Quiet agree G (AllLive [c]) (holding who c .readonly body) fun _ _ => True :=
  (quiet_holding (fun _ hl => (hl c List.mem_cons_self).1) (frameStable_allLive _) hbody).weaken
    (fun _ h => h) fun _ _ _ => trivial

theorem quiet_found {id : String} :
    Quiet agree G (fun _ => True) (find id) fun c => AllLive [c] :=
  (quiet_find []).weaken (fun _ _ => allLive_nil) fun _ _ h => h

end Arcbase.Action
