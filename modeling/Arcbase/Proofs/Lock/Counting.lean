import Arcbase.Proofs.Lock.Sessions
import Arcbase.Proofs.Lock.Writers
set_option autoImplicit false

/-!
# The writer count of a lock session

Whatever the threads do, the number that the table keeps is the number of items that are
written (`tallied_run`), on every path by which writable access starts or ends: a request
for one item or for several, an escalation, a relaxation, a guard that is given back or
replaced under its name.

The number decides about the read-only flag, and the flag about writable access
(`counted_run`): the flag goes up exactly if the number is zero, and while it is up no
request gives writable access, so the number stays zero until the flag is lowered.
-/

namespace Arcbase.LockSession

open Guard LockTable

variable {limit : Nat} {s : LockSession} {pending : List Guard} {g : Guard}

/-! ## Steps and runs -/

theorem tallied_drop (h : s.table.Tallied) (hs : s.Sound limit pending) (name : GuardName) :
    (s.drop name).table.Tallied := by
  unfold drop
  cases hg : s.guard? name with
  | none => exact h
  | some g =>
    have hmove : (pending ++ s.held).Perm (g :: (pending ++ (s.guards.erase name).values)) :=
      ((held_perm_of_guard? hg).append_left pending).trans List.perm_middle
    exact tallied_release h (hs.accounts.perm hmove)

theorem tallied_keepAll (h : s.table.Tallied) (thread : Thread) (names : List String)
    (hs : s.Sound limit pending) : (s.keepAll thread names pending).table.Tallied := by
  induction pending generalizing s names with
  | nil => cases names <;> exact h
  | cons g rest ih =>
    cases names with
    | nil => exact ih (tallied_release h hs.accounts) [] (sound_release hs)
    | cons name names =>
      exact ih (s := s.keep ⟨thread, name⟩ g) (tallied_drop h hs ⟨thread, name⟩) names
        (sound_keep hs ⟨thread, name⟩)

theorem tallied_after (h : s.table.Tallied) (hs : s.Sound limit []) (r : LockRequest) :
    (r.after s).table.Tallied := by
  have hacc : s.table.Accounts s.held := hs.accounts
  cases r with
  | acquire name item mode =>
    simp only [LockRequest.after, LockSession.acquire]
    cases ha : s.table.acquire name.thread item mode with
    | error e => exact h
    | ok p =>
      obtain ⟨g, t⟩ := p
      have hgot : { s with table := t }.Sound limit [g] :=
        hs.of_table (sameSettings_acquire ha) (accounts_acquire hs.accounts ha)
      exact tallied_drop (s := { s with table := t }) (LockTable.tallied_acquire h ha) hgot name
  | acquireMany thread names items mode =>
    simp only [LockRequest.after, LockSession.acquireMany]
    have hmany := tallied_acquireMany h hacc thread items mode
    cases ha : s.table.acquireMany thread items mode with
    | mk result t =>
      rw [ha] at hmany
      obtain ⟨hsame, hacc'⟩ := acquireMany_spec hs.accounts ha
      cases result with
      | error e => exact hmany
      | ok guards =>
        obtain ⟨sorted, _, _, _, hacc'⟩ := hacc'
        exact tallied_keepAll (s := { s with table := t }) hmany thread names
          (hs.of_table hsame hacc')
  | escalate name =>
    simp only [LockRequest.after, LockSession.escalate]
    cases hg : s.guard? name with
    | none => exact h
    | some g =>
      cases he : s.table.escalate g with
      | error e => simpa [he] using h
      | ok p =>
        have hnew := tallied_escalate h (hacc.perm (held_perm_of_guard? hg)) he
        simpa [he] using hnew
  | relax name =>
    simp only [LockRequest.after, LockSession.relax]
    cases hg : s.guard? name with
    | none => exact h
    | some g =>
      have hnew := tallied_relax h (hacc.perm (held_perm_of_guard? hg))
      cases hr : s.table.relax g with
      | mk result t =>
        rw [hr] at hnew
        cases result <;> simpa [hr] using hnew
  | drop name => exact tallied_drop h hs name
  | setReadonly graph => exact tallied_setReadonly h graph
  | clearReadonly => exact tallied_clearReadonly h

theorem tallied_run (h : s.table.Tallied) (hs : s.Sound limit []) (requests : List LockRequest) :
    (s.run requests).table.Tallied := by
  induction requests generalizing s with
  | nil => exact h
  | cons r rest ih => exact ih (tallied_after h hs r) (sound_after hs r)

/-! ## What the number decides -/

/-- The writer count is exact: `written` lists the written items, each once.  It decides
whether the flag goes up.  While the flag is up it is zero, and a request that would start
writable access leaves the session as it was: a request for an item is refused for the flag
unless its thread reads the item already, a request for several items is decided by the
first one in ascending order, and a reader's guard is refused for the flag if it is the only
one on its item. -/
structure Counted (s : LockSession) : Prop where
  once : s.table.written.Nodup
  mem_written : ∀ slot, slot ∈ s.table.written ↔ (s.table.record slot).mode = .writable
  writers : s.table.writers = s.table.written.length
  raises_iff : ∀ graph, (s.setReadonly graph).1 = .ok () ↔ s.table.writers = 0
  raised : ∀ graph, (s.setReadonly graph).1 = .ok () →
    (s.setReadonly graph).2.table.readonly = true
  lowered : ∀ graph, (s.setReadonly graph).1 ≠ .ok () →
    (s.setReadonly graph).1 = .error (.timeout graph .writable) ∧
      (s.setReadonly graph).2.table.readonly = false
  idle : s.table.readonly = true → s.table.writers = 0
  acquire : s.table.readonly = true → ∀ name item,
    s.acquire name item .writable = (.error (refusal s.held name.thread item), s)
  acquireMany : s.table.readonly = true → ∀ thread names items item,
    (items.map LockItem.ordinal).Nodup → item ∈ items →
    (∀ other ∈ items, item.ordinal ≤ other.ordinal) →
      s.acquireMany thread names items .writable =
        (.error (.access (refusal s.held thread item)), s)
  escalate : s.table.readonly = true → ∀ name g, s.guard? name = some g →
    s.escalate name = some (.error (if onSlot g.item.slot s.held = [g] then .readonlyGraph
      else .escalationDenied g.item.label), s)

/-- Raising the flag succeeds exactly if nothing is written. -/
theorem setReadonly_of_writers (s : LockSession) (graph : String) :
    s.setReadonly graph =
      if s.table.writers = 0 then (.ok (), { s with table := { s.table with readonly := true } })
      else (.error (.timeout graph .writable),
        { s with table := { s.table with readonly := false } }) := by
  rw [LockSession.setReadonly, LockTable.setReadonly]
  by_cases hzero : s.table.writers = 0
  · rw [if_pos hzero, if_neg (by omega)]
  · rw [if_neg hzero, if_pos (by omega)]

/-- After any run from a table without holders, the count is exact. -/
theorem counted_run (limit defaultWait : Nat) (requests : List LockRequest) :
    ((new limit defaultWait).run requests).Counted := by
  have hs := sound_run (sound_new limit defaultWait) requests
  have h := tallied_run (s := new limit defaultWait) (tallied_new limit defaultWait)
    (sound_new limit defaultWait) requests
  generalize (new limit defaultWait).run requests = s at hs h
  have hacc : s.table.Accounts s.held := hs.accounts
  refine
    { once := s.table.nodup_written
      mem_written := fun _ => LockTable.mem_written
      writers := h.writers
      raises_iff := fun graph => ?_
      raised := fun graph hok => ?_
      lowered := fun graph hfails => ?_
      idle := h.idle
      acquire := fun hflag name item => ?_
      acquireMany := fun hflag thread names items item hnodup hm hfirst => ?_
      escalate := fun hflag name g hg => ?_ }
  · rw [setReadonly_of_writers]
    split <;> simp [*]
  · rw [setReadonly_of_writers] at hok ⊢
    split at hok
    next hzero => rw [if_pos hzero]
    next => cases hok
  · rw [setReadonly_of_writers] at hfails ⊢
    split at hfails
    next => exact absurd rfl hfails
    next hne =>
      rw [if_neg hne]
      exact ⟨rfl, rfl⟩
  · rw [LockSession.acquire, acquire_of_readonly h hacc hflag]
  · rw [LockSession.acquireMany, acquireMany_of_readonly h hacc hflag thread hnodup hm hfirst]
  · have hperm := held_perm_of_guard? hg
    have honly : onSlot g.item.slot s.held = [g] ↔
        onSlot g.item.slot (s.guards.erase name).values = [] := by
      have hslot := onSlot_perm g.item.slot hperm
      rw [onSlot_cons, if_pos rfl] at hslot
      constructor
      · intro hone
        rw [hone] at hslot
        simpa using hslot.length_eq
      · intro hnone
        rw [hnone] at hslot
        exact List.perm_singleton.1 hslot
    rw [LockSession.escalate, hg, Option.map_some, escalate_of_readonly h (hacc.perm hperm) hflag]
    simp only [honly]

end Arcbase.LockSession
