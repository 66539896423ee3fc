import Arcbase.Proofs.Lock.Requests
set_option autoImplicit false

/-!
# The number of written items

A table keeps the number of its written items beside its records.  A step that rewrites a
record moves the number as the record starts or ceases to be written (`Tallied.rewrite`),
so the number stays right on every path: taking, giving back, escalating and relaxing.

While the read-only flag is up nothing is written, and whoever asks for writable access is
refused: a reader of the item because it reads (`acquire_of_readonly`), a guard with company
because it is not alone (`escalate_of_readonly`), everybody else because of the flag.
-/

namespace Arcbase

open Guard

theorem Guard.onSlot_perm (slot : Nat) {G G' : List Guard} (p : G.Perm G') :
    (onSlot slot G).Perm (onSlot slot G') := p.filter _

/-! ## Records -/

namespace LockRecord

variable {limit : Nat} {r r' : LockRecord} {G : List Guard} {g : Guard}

/-- What a record adds to the number of written items. -/
def weight (r : LockRecord) : Nat := if r.mode = .writable then 1 else 0

theorem weight_eq_zero (h : r.mode ≠ .writable) : r.weight = 0 := if_neg h

theorem weight_eq_one (h : r.mode = .writable) : r.weight = 1 := if_pos h

/-- Reading does not make a record written, and leaves a written one so. -/
theorem weight_read {me : Thread} {label : String} {hold : Hold}
    (h : r.read me limit label = .ok (hold, r')) : r'.weight = r.weight := by
  unfold read reenter at h
  split at h
  · split at h
    · cases h
    · cases h
      rfl
  · split at h
    · split at h
      · cases h
      · cases h
        rfl
    · split at h
      · cases h
      next hmode =>
        cases h
        rw [weight_eq_zero hmode]
        rfl

/-- A reader's guard is on a record that is read. -/
theorem Accounts.mode_of_reader (h : r.Accounts limit (g :: G)) (hg : g.hold = .reader) :
    r.mode = .readonly := by
  cases h with
  | readonly => rfl
  | writable _ writing =>
    have hclash := hg.symm.trans (writing g List.mem_cons_self).1
    cases hclash

/-- A writer's guard is on a record that is written, at one level for every guard. -/
theorem Accounts.mode_of_writer (h : r.Accounts limit (g :: G)) (hg : g.hold = .writer) :
    r.mode = .writable ∧ r.recursion = G.length + 1 := by
  cases h with
  | readonly _ reading =>
    have hclash := hg.symm.trans (reading g List.mem_cons_self)
    cases hclash
  | writable => exact ⟨rfl, rfl⟩

/-- Unless the record is written, it has no writer, and its readers are the threads with a
guard. -/
theorem Accounts.of_unwritten (h : r.Accounts limit G) (hmode : r.mode ≠ .writable) :
    r.writer = none ∧ ∀ u, r.readers.contains u = G.any fun g => g.thread = u := by
  cases h with
  | free => exact ⟨rfl, fun _ => rfl⟩
  | @readonly readers _ held reading depths bound =>
    refine ⟨rfl, fun u => ?_⟩
    rw [Bool.eq_iff_iff, AssocMap.contains_iff, depths u, List.any_eq_true]
    simp only [decide_eq_true_eq]
    by_cases hz : depth u G = 0
    · simpa [hz] using depth_eq_zero_iff.1 hz
    · simpa [hz] using fun hall => hz (depth_eq_zero_iff.2 hall)
  | writable => exact absurd rfl hmode

/-- A record that is read is not written once a level of reading is closed. -/
theorem weight_closeReader (u : Thread) (h : r.mode = .readonly) :
    (r.closeReader u).weight = 0 := by
  refine weight_eq_zero fun hwritable => ?_
  have hcases : (r.closeReader u).mode = .none ∨ (r.closeReader u).mode = r.mode :=
    ite_eq_or_eq _ _ _
  rcases hcases with hmode | hmode
  · cases hmode.symm.trans hwritable
  · cases (hmode.trans h).symm.trans hwritable

/-- A reader's guard is its thread's only level, and the thread is the only reader, exactly
if there is no other guard. -/
theorem Accounts.isSoleReader_iff (h : r.Accounts limit (g :: G)) (hg : g.hold = .reader) :
    r.isSoleReader g.thread = true ↔ G = [] := by
  refine ⟨h.of_isSoleReader, ?_⟩
  rintro rfl
  cases h with
  | @readonly readers _ held reading depths bound =>
    have hentry : ∀ e, e ∈ readers.entries ↔ e ∈ [(g.thread, 1)] := by
      intro (u, n)
      rw [AssocMap.mem_entries_iff, depths u, depth_cons]
      by_cases hu : g.thread = u
      · simp [depth, hu, eq_comm]
      · simp [depth, hu, Ne.symm hu]
    have hperm : readers.entries.Perm [(g.thread, 1)] :=
      (List.perm_ext_iff_of_nodup readers.nodup_entries (List.nodup_singleton _)).2 hentry
    exact beq_iff_eq.2 (List.perm_singleton.1 hperm)
  | writable _ writing =>
    have hclash := hg.symm.trans (writing g List.mem_cons_self).1
    cases hclash

end LockRecord

namespace LockTable

variable {t t' : LockTable} {G : List Guard} {g : Guard} {slot : Nat} {r : LockRecord}

/-! ## The written items -/

/-- The items that are written, by the slots of their records. -/
def written (t : LockTable) : List Nat :=
  (t.records.entries.filter fun e => e.2.mode = .writable).map Prod.fst

theorem nodup_written (t : LockTable) : t.written.Nodup :=
  t.records.nodup.sublist (List.filter_sublist.map Prod.fst)

theorem mem_written : slot ∈ t.written ↔ (t.record slot).mode = .writable := by
  simp only [written, List.mem_map, List.mem_filter, decide_eq_true_eq]
  constructor
  · rintro ⟨⟨slot, r⟩, ⟨hm, hmode⟩, rfl⟩
    rw [record, (AssocMap.mem_entries_iff _ _ _).1 hm]
    exact hmode
  · intro hmode
    cases hget : t.records.get? slot with
    | none =>
      rw [record, hget] at hmode
      cases hmode
    | some r =>
      rw [record, hget] at hmode
      exact ⟨(slot, r), ⟨(AssocMap.mem_entries_iff _ _ _).2 hget, hmode⟩, rfl⟩

/-- Tables with records of the same modes have as many written items. -/
theorem length_written_congr (h : ∀ slot, (t'.record slot).mode = (t.record slot).mode) :
    t'.written.length = t.written.length := by
  have hperm : t'.written.Perm t.written :=
    (List.perm_ext_iff_of_nodup t'.nodup_written t.nodup_written).2 fun slot => by
      rw [mem_written, mem_written, h slot]
  exact hperm.length_eq

theorem length_written (t : LockTable) :
    t.written.length = t.records.values.countP fun r => r.mode = .writable := by
  rw [written, List.length_map, ← List.countP_eq_length_filter, AssocMap.values, List.countP_map]
  rfl

/-- Rewriting one record takes away what it added, and adds what the new one adds. -/
theorem length_written_setRecord (t : LockTable) (slot : Nat) (r : LockRecord) :
    (t.setRecord slot r).written.length + (t.record slot).weight = t.written.length + r.weight := by
  have hcons : ∀ (r : LockRecord) (rest : List LockRecord),
      (r :: rest).countP (fun r => r.mode = .writable) =
        rest.countP (fun r => r.mode = .writable) + r.weight := by
    intro r rest
    rw [List.countP_cons]
    by_cases hmode : r.mode = .writable <;> simp [LockRecord.weight, hmode]
  rw [length_written, length_written, setRecord, (t.records.values_insert_perm slot r).countP_eq,
    hcons, record]
  cases hget : t.records.get? slot with
  | none =>
    have hvalues : (t.records.erase slot).values = t.records.values :=
      congrArg (List.map Prod.snd) (AssocMap.erase_entries_of_get?_eq_none hget)
    rw [hvalues]
    rfl
  | some old =>
    rw [(AssocMap.values_perm_of_get? hget).countP_eq, hcons, Option.getD_some,
      Nat.add_right_comm]

/-! ## Tables that count right -/

/-- The number that is kept is that of the written items, and is zero while the flag is up. -/
structure Tallied (t : LockTable) : Prop where
  writers : t.writers = t.written.length
  idle : t.readonly = true → t.writers = 0

theorem tallied_new (limit defaultWait : Nat) : (new limit defaultWait).Tallied :=
  ⟨rfl, fun _ => rfl⟩

theorem Tallied.pos (h : t.Tallied) (hmode : (t.record slot).mode = .writable) : 0 < t.writers :=
  h.writers ▸ List.length_pos_of_mem (mem_written.2 hmode)

/-- While the flag is up, no record is written. -/
theorem Tallied.unwritten (h : t.Tallied) (hflag : t.readonly = true) (slot : Nat) :
    (t.record slot).mode ≠ .writable := fun hmode =>
  Nat.ne_of_gt (h.pos hmode) (h.idle hflag)

/-- While the flag is up, every guard is a reader's. -/
theorem Tallied.reading (h : t.Tallied) (hacc : t.Accounts G) (hflag : t.readonly = true)
    (hg : g ∈ G) : g.hold = .reader := by
  cases hhold : g.hold with
  | reader => rfl
  | writer =>
    have hrec := (hacc.perm (List.perm_cons_erase hg)).record g.item.slot
    rw [onSlot_cons, if_pos rfl] at hrec
    exact absurd (hrec.mode_of_writer hhold).1 (h.unwritten hflag _)

/-- The number is kept if it moves as the one rewritten record does, which does not start to
be written while the flag is up. -/
theorem Tallied.rewrite (h : t.Tallied) (slot : Nat) (r : LockRecord) (n : Nat)
    (hn : n + (t.record slot).weight = t.writers + r.weight)
    (hle : t.readonly = true → r.weight ≤ (t.record slot).weight) :
    Tallied { t with writers := n, records := t.records.insert slot r } := by
  refine ⟨?_, fun hflag => ?_⟩
  · have hlength : ({ t with writers := n, records := t.records.insert slot r } :
        LockTable).written.length + (t.record slot).weight = t.written.length + r.weight :=
      length_written_setRecord t slot r
    have hwriters := h.writers
    show n = _
    omega
  · have hzero := h.idle hflag
    have hweight := hle hflag
    show n = 0
    omega

/-- Tables whose records have the same modes count alike. -/
theorem Tallied.congr (h : t.Tallied) (hs : t.SameSettings t') (hwriters : t'.writers = t.writers)
    (hmode : ∀ slot, (t'.record slot).mode = (t.record slot).mode) : t'.Tallied :=
  ⟨by rw [hwriters, h.writers, length_written_congr hmode],
    fun hflag => hwriters.trans (h.idle (hs.readonly ▸ hflag))⟩

/-! ## Steps -/

/-- The table after a thread has been given access. -/
inductive Acquired (t : LockTable) (me : Thread) (item : LockItem) :
    LockMode → Hold → LockTable → Prop where
  | read {hold : Hold} {r : LockRecord}
      (reads : (t.record item.slot).read me t.limit item.label = .ok (hold, r)) :
      Acquired t me item .readonly hold (t.setRecord item.slot r)
  | again (mine : (t.record item.slot).writer = some me) :
      Acquired t me item .writable .writer (t.setRecord item.slot
        { t.record item.slot with recursion := (t.record item.slot).recursion + 1 })
  | first (unheld : (t.record item.slot).mode = .none) (unflagged : t.readonly = false) :
      Acquired t me item .writable .writer
        { t.setRecord item.slot ((t.record item.slot).writtenBy me) with writers := t.writers + 1 }

theorem acquire_cases {me : Thread} {item : LockItem} {mode : LockMode}
    (ha : t.acquire me item mode = .ok (g, t')) :
    g.thread = me ∧ g.item = item ∧ t.Acquired me item mode g.hold t' := by
  cases mode with
  | none => cases ha
  | readonly =>
    simp only [acquire, acquireReadonly, bind, Except.bind, pure, Except.pure] at ha
    cases hread : (t.record item.slot).read me t.limit item.label with
    | error e => simp [hread] at ha
    | ok p =>
      simp only [hread, Except.ok.injEq, Prod.mk.injEq] at ha
      obtain ⟨rfl, rfl⟩ := ha
      exact ⟨rfl, rfl, .read hread⟩
  | writable =>
    simp only [acquire, acquireWritable, LockRecord.reenter, enterWriter, bind, Except.bind, pure,
      Except.pure, throw, throwThe, MonadExceptOf.throw] at ha
    by_cases hmine : (t.record item.slot).writer = some me
    · by_cases hlimit : t.limit ≤ (t.record item.slot).recursion
      · simp [hmine, hlimit] at ha
      · simp only [hmine, if_true, hlimit, if_false, Except.ok.injEq, Prod.mk.injEq] at ha
        obtain ⟨rfl, rfl⟩ := ha
        have hagain : t.Acquired me item .writable .writer _ := .again hmine
        dsimp only at hagain
        rw [hmine] at hagain
        exact ⟨rfl, rfl, hagain⟩
    · by_cases hreads : (t.record item.slot).readers.contains me = true
      · simp [hmine, hreads] at ha
      · by_cases hflag : t.readonly = true
        · simp [hmine, hreads, hflag] at ha
        · by_cases hmode : (t.record item.slot).mode = .none
          · have hopen : t.readonly = false := by simpa using hflag
            simp only [hmine, hreads, hopen, hmode, if_true, if_false, Bool.false_eq_true] at ha
            cases ha
            have hfirst : t.Acquired me item .writable .writer _ := .first hmode hopen
            simp only [setRecord, hopen] at hfirst
            exact ⟨rfl, rfl, hfirst⟩
          · simp [hmine, hreads, hflag, hmode] at ha

theorem tallied_acquire {me : Thread} {item : LockItem} {mode : LockMode} (h : t.Tallied)
    (ha : t.acquire me item mode = .ok (g, t')) : t'.Tallied := by
  obtain ⟨-, -, hgot⟩ := acquire_cases ha
  generalize g.hold = hold at hgot
  cases hgot with
  | read hread =>
    have hweight := LockRecord.weight_read hread
    exact h.rewrite _ _ _ (by rw [hweight]) fun _ => Nat.le_of_eq hweight
  | again => exact h.rewrite _ _ _ rfl fun _ => Nat.le_refl _
  | first unheld unflagged =>
    have hold : (t.record item.slot).weight = 0 :=
      LockRecord.weight_eq_zero fun hwritable => by cases unheld.symm.trans hwritable
    exact h.rewrite item.slot _ (t.writers + 1) (by rw [hold]; rfl) fun hup =>
      absurd (unflagged.symm.trans hup) Bool.false_ne_true

theorem tallied_release (h : t.Tallied) (hacc : t.Accounts (g :: G)) : (t.release g).Tallied := by
  have hrec := hacc.record g.item.slot
  rw [onSlot_cons, if_pos rfl] at hrec
  cases hg : g.hold with
  | reader =>
    have hmode := hrec.mode_of_reader hg
    have hold : (t.record g.item.slot).weight = 0 :=
      LockRecord.weight_eq_zero fun hwritable => by cases hmode.symm.trans hwritable
    have hnew := LockRecord.weight_closeReader g.thread hmode
    simp only [release, hg]
    exact h.rewrite _ _ _ (by rw [hold, hnew]) fun _ => Nat.le_of_eq (hnew.trans hold.symm)
  | writer =>
    obtain ⟨hmode, -⟩ := hrec.mode_of_writer hg
    have hold := LockRecord.weight_eq_one hmode
    by_cases hlast : (t.record g.item.slot).recursion ≤ 1
    · have hnew : (t.record g.item.slot).closeWriter.weight = 0 := by
        rw [LockRecord.closeWriter, if_pos hlast]
        rfl
      have hpos := h.pos hmode
      simp only [release, hg, hlast, if_true]
      exact h.rewrite g.item.slot _ (t.writers - 1) (by omega) fun _ => by omega
    · have hnew : (t.record g.item.slot).closeWriter.weight = 1 := by
        rw [LockRecord.closeWriter, if_neg hlast]
        exact hold
      simp only [release, hg, hlast, if_false]
      exact h.rewrite _ _ _ (by rw [hold, hnew]) fun _ => Nat.le_of_eq (hnew.trans hold.symm)

theorem tallied_releaseAll {taken : List Guard} (h : t.Tallied) (hacc : t.Accounts (taken ++ G)) :
    (t.releaseAll taken).Tallied := by
  induction taken generalizing t with
  | nil => exact h
  | cons g rest ih => exact ih (tallied_release h hacc) (accounts_release hacc)

theorem tallied_acquireInOrder {me : Thread} {mode : LockMode} {items : List LockItem}
    {taken : List Guard} (h : t.Tallied) (hacc : t.Accounts (taken ++ G)) :
    (acquireInOrder me mode items taken t).2.Tallied := by
  induction items generalizing t taken with
  | nil => exact h
  | cons item rest ih =>
    unfold acquireInOrder
    cases ha : t.acquire me item mode with
    | error e => exact tallied_releaseAll h hacc
    | ok p =>
      obtain ⟨g, t₁⟩ := p
      have hperm : (g :: (taken ++ G)).Perm ((taken ++ [g]) ++ G) := by
        rw [List.append_assoc]
        exact List.perm_middle.symm
      exact ih (tallied_acquire h ha) ((accounts_acquire hacc ha).perm hperm)

theorem tallied_acquireMany (h : t.Tallied) (hacc : t.Accounts G) (me : Thread)
    (items : List LockItem) (mode : LockMode) : (t.acquireMany me items mode).2.Tallied := by
  unfold acquireMany
  dsimp only
  split
  · exact h
  · have hnone : t.Accounts ([] ++ G) := hacc
    exact tallied_acquireInOrder h hnone

theorem tallied_escalate {g' : Guard} (h : t.Tallied) (hacc : t.Accounts (g :: G))
    (he : t.escalate g = .ok (g', t')) : t'.Tallied := by
  cases hg : g.hold with
  | writer =>
    simp only [escalate, hg] at he
    cases he
    exact h
  | reader =>
    simp only [escalate, hg, enterWriter, bind, Except.bind, pure, Except.pure, throw, throwThe,
      MonadExceptOf.throw] at he
    by_cases hs : (t.record g.item.slot).isSoleReader g.thread = true
    · by_cases hflag : t.readonly = true
      · simp [hs, hflag] at he
      · have hopen : t.readonly = false := by simpa using hflag
        simp only [hs, hflag, if_true, if_false, Bool.false_eq_true] at he
        cases he
        have hrec := hacc.record g.item.slot
        rw [onSlot_cons, if_pos rfl] at hrec
        have hold : (t.record g.item.slot).weight = 0 :=
          LockRecord.weight_eq_zero fun hwritable => by
            cases (hrec.mode_of_reader hg).symm.trans hwritable
        have hnew := h.rewrite g.item.slot
          ({ t.record g.item.slot with readers := AssocMap.empty }.writtenBy g.thread)
          (t.writers + 1) (by rw [hold]; rfl) fun hup => absurd hup hflag
        rwa [hopen] at hnew
    · simp [hs] at he

theorem tallied_relax (h : t.Tallied) (hacc : t.Accounts (g :: G)) : (t.relax g).2.Tallied := by
  cases hg : g.hold with
  | reader =>
    simp only [relax, hg]
    exact h
  | writer =>
    simp only [relax, hg]
    split
    · exact tallied_release h hacc
    · have hrec := hacc.record g.item.slot
      rw [onSlot_cons, if_pos rfl] at hrec
      obtain ⟨hmode, -⟩ := hrec.mode_of_writer hg
      have hold := LockRecord.weight_eq_one hmode
      have hnew : ((t.record g.item.slot).downgrade g.thread).weight = 0 := rfl
      have hpos := h.pos hmode
      exact h.rewrite g.item.slot _ (t.writers - 1) (by omega) fun _ => by omega

/-- The flag goes up exactly if nothing is written, and is down otherwise. -/
theorem tallied_setReadonly (h : t.Tallied) (graph : String) : (t.setReadonly graph).2.Tallied := by
  unfold setReadonly
  split
  · exact ⟨h.writers, fun hflag => Bool.noConfusion hflag⟩
  next hzero => exact ⟨h.writers, fun _ => Nat.eq_zero_of_not_pos hzero⟩

theorem tallied_clearReadonly (h : t.Tallied) : t.clearReadonly.Tallied :=
  ⟨h.writers, fun hflag => Bool.noConfusion hflag⟩

/-! ## While the flag is up -/

/-- Why a thread is refused writable access while the flag is up: a reader of the item,
because it reads. -/
def refusal (G : List Guard) (me : Thread) (item : LockItem) : AccessError :=
  if (onSlot item.slot G).any fun g => g.thread = me then .locked item.label else .readonlyGraph

theorem acquire_of_readonly (h : t.Tallied) (hacc : t.Accounts G) (hflag : t.readonly = true)
    (me : Thread) (item : LockItem) :
    t.acquire me item .writable = .error (refusal G me item) := by
  obtain ⟨hwriter, hreaders⟩ := (hacc.record item.slot).of_unwritten (h.unwritten hflag item.slot)
  simp only [acquire, acquireWritable, hwriter, hreaders, enterWriter, hflag, refusal, bind,
    Except.bind, throw, throwThe, MonadExceptOf.throw, reduceCtorEq, if_false, if_true]
  by_cases hreads : ((onSlot item.slot G).any fun g => g.thread = me) = true <;> simp [hreads]

/-- The first item in ascending order decides. -/
theorem acquireMany_of_readonly (h : t.Tallied) (hacc : t.Accounts G) (hflag : t.readonly = true)
    (me : Thread) {items : List LockItem} {item : LockItem}
    (hnodup : (items.map LockItem.ordinal).Nodup) (hm : item ∈ items)
    (hfirst : ∀ other ∈ items, item.ordinal ≤ other.ordinal) :
    t.acquireMany me items .writable = (.error (.access (refusal G me item)), t) := by
  have hperm := List.mergeSort_perm items fun a b => a.ordinal ≤ b.ordinal
  have hsorted := pairwise_ordinal items
  rw [acquireMany, duplicate?_of_nodup ((hperm.map _).nodup_iff.2 hnodup)]
  generalize (items.mergeSort fun a b => a.ordinal ≤ b.ordinal) = sorted at hperm hsorted
  cases sorted with
  | nil => exact absurd (hperm.mem_iff.2 hm) List.not_mem_nil
  | cons head rest =>
    have hhead : head ∈ items := hperm.mem_iff.1 List.mem_cons_self
    have hle : head.ordinal ≤ item.ordinal := by
      rcases List.mem_cons.1 (hperm.mem_iff.2 hm) with rfl | hrest
      · exact Nat.le_refl _
      · exact (List.pairwise_cons.1 hsorted).1 item hrest
    obtain rfl : head = item := List.inj_on_of_nodup_map hnodup hhead hm
      (Nat.le_antisymm hle (hfirst head hhead))
    simp only [acquireInOrder, acquire_of_readonly h hacc hflag]
    rfl

/-- A sole guard is refused for the flag, one with company for that. -/
theorem escalate_of_readonly (h : t.Tallied) (hacc : t.Accounts (g :: G))
    (hflag : t.readonly = true) :
    t.escalate g = .error (if onSlot g.item.slot G = [] then .readonlyGraph
      else .escalationDenied g.item.label) := by
  have hg := h.reading hacc hflag List.mem_cons_self
  have hrec := hacc.record g.item.slot
  rw [onSlot_cons, if_pos rfl] at hrec
  have hsole := hrec.isSoleReader_iff hg
  simp only [escalate, hg, enterWriter, hflag, if_true, bind, Except.bind, throw, throwThe,
    MonadExceptOf.throw]
  by_cases hnone : onSlot g.item.slot G = []
  · simp [hsole.2 hnone, hnone]
  · simp [hsole, hnone]

end LockTable

end Arcbase
