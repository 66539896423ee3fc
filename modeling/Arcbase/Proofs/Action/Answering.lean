import Arcbase.Proofs.Action.Quiet
set_option autoImplicit false

/-!
# Actions that answer

An action *answers* on a store if it gives back all guards that it takes, changes nothing
else, and its outcome is as told, whatever the locks are that the guards amount to.  What
is told of an outcome may be told of failures too: readonly access is refused only to a
thread that cannot read the vertex (`answers_holding`).
-/

namespace Arcbase

open Guard

namespace Store

variable {s : Store} {G new : List Guard} {me : Thread} {path : List CellId} {c : CellId}

/-- Whether a thread can be given readonly access to a vertex besides guards, when it holds
the vertices of a path as well. -/
def CanRead (s : Store) (G : List Guard) (me : Thread) (path : List CellId) (c : CellId) : Prop :=
  (∀ g ∈ onSlot c G, g.hold = .writer → g.thread = me) ∧
    depth me (onSlot c G) + path.count c < s.locks.limit

/-- The guards of a path are as good as its vertices. -/
theorem canRead_append (hme : ∀ g ∈ new, g.thread = me) :
    s.CanRead (new ++ G) me [] c ↔ s.CanRead G me (new.map fun g => g.item.slot) c := by
  have hdepth : depth me (onSlot c new) = (new.map fun g => g.item.slot).count c := by
    induction new with
    | nil => rfl
    | cons g rest ih =>
      have hrest := ih fun g' hg' => hme g' (List.mem_cons_of_mem g hg')
      rw [List.map_cons, List.count_cons, onSlot_cons]
      by_cases hslot : g.item.slot = c
      · rw [if_pos hslot, depth_cons, if_pos (hme g List.mem_cons_self), hrest]
        simp [hslot]
      · simp [hslot, hrest]
  have hsplit : onSlot c (new ++ G) = onSlot c new ++ onSlot c G := List.filter_append ..
  have hsum : depth me (onSlot c (new ++ G)) =
      depth me (onSlot c G) + (new.map fun g => g.item.slot).count c := by
    rw [hsplit, depth, List.countP_append, Nat.add_comm, ← hdepth]
    rfl
  have hwriters : (∀ g ∈ onSlot c (new ++ G), g.hold = .writer → g.thread = me) ↔
      ∀ g ∈ onSlot c G, g.hold = .writer → g.thread = me := by
    rw [hsplit]
    refine ⟨fun h g hg => h g (List.mem_append_right _ hg), fun h g hg hw => ?_⟩
    rcases List.mem_append.1 hg with hnew | hold
    · exact hme g (mem_onSlot.1 hnew).1
    · exact h g hold hw
  rw [CanRead, CanRead, hsum, hwriters]
  rfl

end Store

namespace Action

open Store

variable {α β : Type} {s : Store} {G : List Guard}

/-- The action leaves the guards and all but the locks as they are; its outcome is as
told. -/
def Answers (s : Store) (G : List Guard) (a : Action α) (Q : Except Error α → Prop) : Prop :=
  ∀ t, s.locks.SameSettings t → t.Accounts G →
    ∃ r t', a.run { s with locks := t } = (r, { s with locks := t' }) ∧
      s.locks.SameSettings t' ∧ t'.Accounts G ∧ Q r

theorem answers_pure {x : α} {Q : Except Error α → Prop} (h : Q (.ok x)) :
    Answers s G (pure x) Q := fun t hset hacc => ⟨.ok x, t, rfl, hset, hacc, h⟩

theorem answers_ofExcept {r : Except Error α} {Q : Except Error α → Prop} (h : Q r) :
    Answers s G (ofExcept r) Q := fun t hset hacc => ⟨r, t, rfl, hset, hacc, h⟩

theorem answers_read {f : Store → α} {Q : Except Error α → Prop}
    (h : ∀ t, Q (.ok (f { s with locks := t }))) : Answers s G (read f) Q :=
  fun t hset hacc => ⟨_, t, rfl, hset, hacc, h t⟩

theorem answers_bind {a : Action α} {f : α → Action β} {M : Except Error α → Prop}
    {Q : Except Error β → Prop} (ha : Answers s G a M) (hfail : ∀ e, M (.error e) → Q (.error e))
    (hf : ∀ x, M (.ok x) → Answers s G (f x) Q) : Answers s G (a >>= f) Q := by
  intro t hset hacc
  obtain ⟨r, t₁, hrun, hset₁, hacc₁, hm⟩ := ha t hset hacc
  rw [run_bind, hrun]
  cases r with
  | error e => exact ⟨.error e, t₁, rfl, hset₁, hacc₁, hfail e hm⟩
  | ok x => exact hf x hm t₁ hset₁ hacc₁

theorem Answers.weaken {a : Action α} {M Q : Except Error α → Prop} (h : Answers s G a M)
    (hq : ∀ r, M r → Q r) : Answers s G a Q := by
  intro t hset hacc
  obtain ⟨r, t', hrun, hset', hacc', hm⟩ := h t hset hacc
  exact ⟨r, t', hrun, hset', hacc', hq r hm⟩

theorem answers_find {id : String} {c : CellId} (h : s.lookup id = some c) :
    Answers s G (find id) (· = .ok c) := by
  refine answers_bind (M := (· = .ok (some c))) (answers_read fun t => congrArg Except.ok h)
    (fun e he => nomatch he) fun found hfound => ?_
  cases hfound
  exact answers_pure rfl

/-- While a vertex is held the body answers besides one more guard; a refusal is told as the
lock table has it. -/
theorem answers_holding_unless {who : Caller} {c : CellId} {body : Action α}
    {Q : Except Error α → Prop}
    (hrefused : ∀ t e, s.locks.SameSettings t → t.Accounts G →
      t.acquire who.thread (s.lockItem c) .readonly = .error e → Q (.error (.access e)))
    (hbody : ∀ g : Guard, g.thread = who.thread → g.item.slot = c → Answers s (g :: G) body Q) :
    Answers s G (holding who c .readonly body) Q := by
  intro t hset hacc
  have hitem : Store.lockItem { s with locks := t } c = s.lockItem c := rfl
  simp only [holding, acquire, run_bind, run_ofFun, hitem]
  cases hacq : t.acquire who.thread (s.lockItem c) .readonly with
  | error e => exact ⟨.error (.access e), t, rfl, hset, hacc, hrefused t e hset hacc hacq⟩
  | ok p =>
    obtain ⟨g, t₁⟩ := p
    obtain ⟨hme, hslot, _⟩ := LockTable.acquire_ok hacq
    have hset₁ := hset.trans (LockTable.sameSettings_acquire hacq)
    obtain ⟨r, t₂, hrun, hset₂, hacc₂, hq⟩ := hbody g hme (congrArg LockItem.slot hslot) t₁ hset₁
      (LockTable.accounts_acquire hacc hacq)
    have hdrop : ({ s with locks := t₂ } : Store).drop g = { s with locks := t₂.release g } :=
      drop_of_readonly (s := { s with locks := t }) hacc hacq hacc₂
    refine ⟨r, t₂.release g, ?_, hset₂.trans (LockTable.sameSettings_release t₂ g),
      LockTable.accounts_release hacc₂, hq⟩
    simp only [ensuring, run_ofFun, hrun, hdrop]

/-- While a vertex is held the body answers besides one more guard. -/
theorem answers_holding {who : Caller} {c : CellId} {body : Action α} {Q : Except Error α → Prop}
    (hrefused : ∀ e, ¬ s.CanRead G who.thread [] c → Q (.error e))
    (hbody : ∀ g : Guard, g.thread = who.thread → g.item.slot = c → Answers s (g :: G) body Q) :
    Answers s G (holding who c .readonly body) Q := by
  refine answers_holding_unless (fun t e hset hacc hacq => hrefused _ fun hcan => ?_) hbody
  have hread : (∃ p, t.acquire who.thread (s.lockItem c) .readonly = .ok p) ↔
      s.CanRead G who.thread [] c := by
    rw [LockTable.acquire_readonly_iff hacc, hset.limit]
    rfl
  rw [← hread, hacq] at hcan
  obtain ⟨p, hp⟩ := hcan
  cases hp

end Action

end Arcbase
