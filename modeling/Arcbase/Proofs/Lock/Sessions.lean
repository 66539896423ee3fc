import Arcbase.Lock.Session
import Arcbase.Proofs.Lock.Requests
set_option autoImplicit false

/-!
# Lock sessions

Threads take, change and give back guards one step after the other, in any order, on
any items.  After every run the record of every item is the one that the guards on it
amount to (`exact_run`): no step leaves a level behind or takes one too many.  Who is
given access can be read off the record.
-/

namespace Arcbase

open Guard LockTable

/-- One step of a thread, or a change of the read-only flag. -/
inductive LockRequest where
  | acquire (name : GuardName) (item : LockItem) (mode : LockMode)
  | acquireMany (thread : Thread) (names : List String) (items : List LockItem) (mode : LockMode)
  | escalate (name : GuardName)
  | relax (name : GuardName)
  | drop (name : GuardName)
  | setReadonly (graph : String)
  | clearReadonly

/-- The session after a request; one through a guard that is not held does nothing. -/
def LockRequest.after (s : LockSession) : LockRequest → LockSession
  | acquire name item mode => (s.acquire name item mode).2
  | acquireMany thread names items mode => (s.acquireMany thread names items mode).2
  | escalate name => ((s.escalate name).map Prod.snd).getD s
  | relax name => ((s.relax name).map Prod.snd).getD s
  | drop name => s.drop name
  | setReadonly graph => (s.setReadonly graph).2
  | clearReadonly => s.clearReadonly

namespace LockSession

/-- The guards that are held, in no particular order. -/
def held (s : LockSession) : List Guard := s.guards.values

/-- The session after requests, one after the other. -/
def run (s : LockSession) (requests : List LockRequest) : LockSession :=
  requests.foldl LockRequest.after s

/-! ## Sessions whose records are right -/

/-- The records account for the guards under names and for pending ones, which have
been got and have no name yet. -/
structure Sound (limit : Nat) (s : LockSession) (pending : List Guard) : Prop where
  limit : s.table.limit = limit
  accounts : s.table.Accounts (pending ++ s.held)

variable {limit : Nat} {s : LockSession} {pending G : List Guard} {g : Guard} {name : GuardName}
  {t : LockTable}

theorem sound_new (limit defaultWait : Nat) : (new limit defaultWait).Sound (max limit 1) [] :=
  ⟨rfl, accounts_new limit defaultWait⟩

/-- A guard under a name is one of those held, apart from the ones under other names. -/
theorem held_perm_of_guard? (h : s.guard? name = some g) :
    s.held.Perm (g :: (s.guards.erase name).values) := s.guards.values_perm_of_get? h

theorem Sound.of_table (h : s.Sound limit pending) (hs : s.table.SameSettings t)
    (ha : t.Accounts (G ++ s.held)) : { s with table := t }.Sound limit G :=
  ⟨hs.limit.trans h.limit, ha⟩

theorem sound_release (h : s.Sound limit (g :: pending)) :
    { s with table := s.table.release g }.Sound limit pending :=
  h.of_table (sameSettings_release s.table g) (accounts_release h.accounts)

theorem sound_drop (h : s.Sound limit pending) (name : GuardName) :
    (s.drop name).Sound limit pending := by
  unfold drop
  cases hg : s.guard? name with
  | none => exact h
  | some g =>
    have hmove : (pending ++ s.held).Perm (g :: (pending ++ (s.guards.erase name).values)) :=
      (List.Perm.append_left pending (held_perm_of_guard? hg)).trans List.perm_middle
    exact ⟨(sameSettings_release s.table g).limit.trans h.limit,
      accounts_release (h.accounts.perm hmove)⟩

/-- What is held once a guard has a name whose old guard has been given back. -/
theorem held_insert_perm (g : Guard) (h : s.guard? name = none) :
    { s with guards := s.guards.insert name g }.held.Perm (g :: s.held) := by
  have hkept : (s.guards.erase name).values = s.guards.values :=
    congrArg (List.map Prod.snd) (AssocMap.erase_entries_of_get?_eq_none h)
  rw [held, held, ← hkept]
  exact s.guards.values_insert_perm name g

theorem guard?_drop (s : LockSession) (name : GuardName) : (s.drop name).guard? name = none := by
  unfold drop
  cases hg : s.guard? name with
  | none => exact hg
  | some g => simp [guard?, AssocMap.get?_erase]

theorem sound_keep (h : s.Sound limit (g :: pending)) (name : GuardName) :
    (s.keep name g).Sound limit pending := by
  have hd := sound_drop h name
  have hmove : ((g :: pending) ++ (s.drop name).held).Perm (pending ++ (s.keep name g).held) :=
    List.perm_middle.symm.trans
      (List.Perm.append_left pending (held_insert_perm g (guard?_drop s name)).symm)
  exact ⟨hd.limit, hd.accounts.perm hmove⟩

theorem sound_keepAll (thread : Thread) (names : List String)
    (h : s.Sound limit pending) : (s.keepAll thread names pending).Sound limit [] := by
  induction pending generalizing s names with
  | nil => cases names <;> exact h
  | cons g rest ih =>
    cases names with
    | nil => exact ih [] (sound_release h)
    | cons name names => exact ih names (sound_keep h ⟨thread, name⟩)

/-- A guard that takes the place of another one under its name. -/
theorem sound_replace {g' : Guard} (h : s.Sound limit [])
    (hs : s.table.SameSettings t)
    (ha : t.Accounts (g' :: (s.guards.erase name).values)) :
    Sound limit { table := t, guards := s.guards.insert name g' } [] :=
  ⟨hs.limit.trans h.limit, ha.perm (s.guards.values_insert_perm name g').symm⟩

/-! ## Steps and runs -/

theorem sound_after (h : s.Sound limit []) (r : LockRequest) : (r.after s).Sound limit [] := by
  cases r with
  | acquire name item mode =>
    simp only [LockRequest.after, LockSession.acquire]
    cases ha : s.table.acquire name.thread item mode with
    | error e => exact h
    | ok p =>
      obtain ⟨g, t⟩ := p
      exact sound_keep (h.of_table (sameSettings_acquire ha) (accounts_acquire h.accounts ha)) name
  | acquireMany thread names items mode =>
    simp only [LockRequest.after, LockSession.acquireMany]
    cases ha : s.table.acquireMany thread items mode with
    | mk result t =>
      obtain ⟨hsame, hacc⟩ := acquireMany_spec h.accounts ha
      cases result with
      | error e => exact h.of_table hsame hacc
      | ok guards =>
        obtain ⟨sorted, _, _, _, hacc⟩ := hacc
        exact sound_keepAll thread names (h.of_table hsame hacc)
  | escalate name =>
    simp only [LockRequest.after, LockSession.escalate]
    cases hg : s.guard? name with
    | none => exact h
    | some g =>
      cases he : s.table.escalate g with
      | error e => simpa [he] using h
      | ok p =>
        obtain ⟨hsame, hacc, -⟩ := accounts_escalate
          (h.accounts.perm (held_perm_of_guard? hg)) he
        simpa [he] using sound_replace h hsame hacc
  | relax name =>
    simp only [LockRequest.after, LockSession.relax]
    cases hg : s.guard? name with
    | none => exact h
    | some g =>
      cases hr : s.table.relax g with
      | mk result t =>
        obtain ⟨hsame, hacc, -⟩ := accounts_relax (h.accounts.perm (held_perm_of_guard? hg)) hr
        cases result with
        | none => simpa [hr] using (⟨hsame.limit.trans h.limit, hacc⟩ :
            Sound limit { table := t, guards := s.guards.erase name } [])
        | some g' => simpa [hr] using sound_replace h hsame hacc
  | drop name => exact sound_drop h name
  | setReadonly graph =>
    have hset : (s.table.setReadonly graph).2.limit = s.table.limit ∧
        ∀ slot, (s.table.setReadonly graph).2.record slot = s.table.record slot := by
      unfold LockTable.setReadonly
      split <;> exact ⟨rfl, fun _ => rfl⟩
    refine ⟨hset.1.trans h.limit, hset.1 ▸ h.accounts.limit_pos, fun slot => ?_⟩
    have hrec := h.accounts.record slot
    rw [← hset.1, ← hset.2 slot] at hrec
    exact hrec
  | clearReadonly => exact ⟨h.limit, h.accounts.limit_pos, h.accounts.record⟩

theorem sound_run (h : s.Sound limit []) (requests : List LockRequest) :
    (s.run requests).Sound limit [] := by
  induction requests generalizing s with
  | nil => exact h
  | cons r rest ih => exact ih (sound_after h r)

end LockSession

/-! ## Reading the record -/

/-- The three shapes of a record, by the guards on its item. -/
inductive LockRecord.Shape (limit : Nat) (r : LockRecord) (G : List Guard) : Prop where
  | free (unheld : G = []) (mode : r.mode = .none) (writer : r.writer = none)
      (readers : r.readers.entries = [])
  | readonly (held : G ≠ []) (mode : r.mode = .readonly) (writer : r.writer = none)
      (reading : ∀ g ∈ G, g.hold = .reader) (once : r.readers.keys.Nodup)
      (entries : ∀ u n, (u, n) ∈ r.readers.entries ↔ (∃ g ∈ G, g.thread = u) ∧ n = depth u G)
      (bound : ∀ u n, (u, n) ∈ r.readers.entries → 1 ≤ n ∧ n ≤ limit)
  | writable (held : G ≠ []) (mode : r.mode = .writable) (readers : r.readers.entries = [])
      (writing : ∀ g ∈ G, g.hold = .writer ∧ r.writer = some g.thread)
      (recursion : r.recursion = G.length) (bound : 1 ≤ r.recursion ∧ r.recursion ≤ limit)

theorem LockRecord.Accounts.shape {limit : Nat} {r : LockRecord} {G : List Guard}
    (h : r.Accounts limit G) : r.Shape limit G := by
  cases h with
  | free => exact .free rfl rfl rfl rfl
  | @readonly readers _ held reading depths bound =>
    have hentry : ∀ u n, (u, n) ∈ readers.entries ↔ (∃ g ∈ G, g.thread = u) ∧ n = depth u G := by
      intro u n
      have hholds : (∃ g ∈ G, g.thread = u) ↔ depth u G ≠ 0 := by
        rw [Ne, depth_eq_zero_iff]
        simp
      rw [AssocMap.mem_entries_iff, depths u, hholds]
      by_cases hz : depth u G = 0
      · simp [hz]
      · simp [hz, eq_comm]
    refine .readonly held rfl rfl reading readers.nodup hentry fun u n hm => ?_
    obtain ⟨⟨g, hg, hu⟩, rfl⟩ := (hentry u n).1 hm
    have hpos : depth u G ≠ 0 := fun e => depth_eq_zero_iff.1 e g hg hu
    exact ⟨Nat.one_le_iff_ne_zero.2 hpos, bound u⟩
  | @writable me _ held writing bound =>
    refine .writable held rfl rfl (fun g hg => ?_) rfl ⟨List.length_pos_iff.2 held, bound⟩
    obtain ⟨hw, rfl⟩ := writing g hg
    exact ⟨hw, rfl⟩

namespace LockSession

/-- Who is given access to an item: its writer below the limit, a reader below the limit
where no other thread writes, and a new writer of an item that nobody holds while the
graph is not read-only.  The mode `none` asks for nothing and is refused. -/
def Admits (s : LockSession) (me : Thread) (item : LockItem) (mode : LockMode) : Prop :=
  (mode ≠ .none ∧ (s.table.record item.slot).writer = some me ∧
      (s.table.record item.slot).recursion < s.table.limit) ∨
    (mode = .readonly ∧ (∀ u, (s.table.record item.slot).writer = some u → u = me) ∧
      depth me (onSlot item.slot s.held) < s.table.limit) ∨
    (mode = .writable ∧ onSlot item.slot s.held = [] ∧ s.table.readonly = false)

/-- The records of a session are its guards, and decide who is given access. -/
structure Exact (limit : Nat) (s : LockSession) : Prop where
  limit_eq : s.table.limit = limit
  shape : ∀ slot, (s.table.record slot).Shape limit (onSlot slot s.held)
  exclusive : ∀ g ∈ s.held, ∀ g' ∈ s.held, g.item.slot = g'.item.slot → g.hold = .writer →
    g'.thread = g.thread
  admits : ∀ name item mode,
    (∃ view, (s.acquire name item mode).1 = .ok view) ↔ s.Admits name.thread item mode

variable {limit : Nat} {s : LockSession}

/-- A session gives access where its table does. -/
theorem acquire_isOk_iff (s : LockSession) (name : GuardName) (item : LockItem) (mode : LockMode) :
    (∃ view, (s.acquire name item mode).1 = .ok view) ↔
      ∃ p, s.table.acquire name.thread item mode = .ok p := by
  unfold LockSession.acquire
  cases s.table.acquire name.thread item mode <;> simp

theorem Sound.admits_iff (h : s.Sound limit []) (me : Thread) (item : LockItem) (mode : LockMode) :
    (∃ p, s.table.acquire me item mode = .ok p) ↔ s.Admits me item mode := by
  have hacc : s.table.Accounts s.held := h.accounts
  have hshape := (hacc.record item.slot).shape
  have hpos := hacc.limit_pos
  cases mode with
  | none =>
    simp [LockTable.acquire, Admits, throw, throwThe, MonadExceptOf.throw, bind, Except.bind]
  | readonly =>
    rw [acquire_readonly_iff hacc]
    cases hshape with
    | free unheld _ writer => simp [Admits, unheld, writer]
    | readonly _ _ writer reading =>
      have hfree : ∀ g ∈ onSlot item.slot s.held, g.hold = .writer → g.thread = me := by
        intro g hg hw
        rw [reading g hg] at hw
        cases hw
      simpa [Admits, writer] using fun _ => hfree
    | writable held _ _ writing recursion =>
      obtain ⟨g, hg⟩ := List.exists_mem_of_ne_nil _ held
      have hwriter := (writing g hg).2
      have hsame : ∀ g' ∈ onSlot item.slot s.held, g'.thread = g.thread := fun g' hg' =>
        Option.some.inj ((writing g' hg').2.symm.trans hwriter)
      have hmine : (∀ g' ∈ onSlot item.slot s.held, g'.hold = .writer → g'.thread = me) ↔
          g.thread = me :=
        ⟨fun hall => hall g hg (writing g hg).1, fun e g' hg' _ => (hsame g' hg').trans e⟩
      rw [hmine]
      by_cases hme : g.thread = me
      · have hdepth : depth me (onSlot item.slot s.held) = (onSlot item.slot s.held).length :=
          List.countP_eq_length.2 fun g' hg' => by simpa using (hsame g' hg').trans hme
        simp [Admits, hwriter, hme, recursion, hdepth]
      · simp [Admits, hwriter, hme]
  | writable =>
    rw [acquire_writable_iff hacc]
    cases hshape with
    | free unheld _ writer =>
      have hopen : Open s.held me item.slot := fun g hg hs =>
        absurd (unheld ▸ mem_onSlot.2 ⟨hg, hs⟩) List.not_mem_nil
      simp [Admits, unheld, writer, hopen, hpos]
    | readonly held _ writer reading =>
      obtain ⟨g, hg⟩ := List.exists_mem_of_ne_nil _ held
      have hclosed : ¬ Open s.held me item.slot := by
        intro hopen
        have hw := (hopen g (mem_onSlot.1 hg).1 (mem_onSlot.1 hg).2).1
        rw [reading g hg] at hw
        cases hw
      simp [Admits, held, writer, hclosed]
    | writable held _ _ writing recursion =>
      obtain ⟨g, hg⟩ := List.exists_mem_of_ne_nil _ held
      have hwriter := (writing g hg).2
      have hopen : Open s.held me item.slot ↔ g.thread = me := by
        refine ⟨fun ho => (ho g (mem_onSlot.1 hg).1 (mem_onSlot.1 hg).2).2, ?_⟩
        intro hme g' hg' hs
        have hw := writing g' (mem_onSlot.2 ⟨hg', hs⟩)
        exact ⟨hw.1, (Option.some.inj (hw.2.symm.trans hwriter)).trans hme⟩
      simp [Admits, held, hwriter, hopen, recursion]

/-- After any run from a table without holders, the records are exact. -/
theorem exact_run (limit defaultWait : Nat) (requests : List LockRequest) :
    ((new limit defaultWait).run requests).Exact (max limit 1) := by
  have h := sound_run (sound_new limit defaultWait) requests
  have hacc : ((new limit defaultWait).run requests).table.Accounts
      ((new limit defaultWait).run requests).held := h.accounts
  refine ⟨h.limit, fun slot => h.limit ▸ (hacc.record slot).shape, ?_, ?_⟩
  · intro g hg g' hg' hslot hw
    exact (open_of_writer hacc hg hw g' hg' hslot.symm).2
  · intro name item mode
    rw [acquire_isOk_iff, h.admits_iff]

end LockSession

end Arcbase
