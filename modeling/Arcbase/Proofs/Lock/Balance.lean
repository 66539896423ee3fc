import Arcbase.Proofs.Lock.Writers
set_option autoImplicit false

/-!
# Taking and giving back cancel

A guard that is given back leaves the table as it was before it was taken: every record,
down to the order of its readers, the settings, and the number of written items
(`release_acquire`).  The guards of one thread can be given back in any order
(`releaseAll_comm`), so the same holds of all that a request for several items takes,
whether it got everything or was refused on its way (`balance_acquireMany`).
-/

namespace Arcbase

open Guard

/-! ## Records -/

namespace LockRecord

variable {limit : Nat} {r r' : LockRecord} {G : List Guard}

/-- The record after a guard of the thread has been given back. -/
def close (r : LockRecord) (u : Thread) : Hold → LockRecord
  | .reader => r.closeReader u
  | .writer => r.closeWriter

/-- A level of reading leaves no trace; inside writable access it is not the last one. -/
theorem close_read (h : r.Accounts limit G) {me : Thread} {label : String} {hold : Hold}
    (hread : r.read me limit label = .ok (hold, r')) :
    r'.close me hold = r ∧ (hold = .writer → 1 < r'.recursion) := by
  cases h with
  | free =>
    simp only [read, free, AssocMap.get?_empty, reduceCtorEq, if_false, Except.ok.injEq,
      Prod.mk.injEq] at hread
    obtain ⟨rfl, rfl⟩ := hread
    refine ⟨?_, fun h => by cases h⟩
    have hempty : ((AssocMap.empty : AssocMap Thread Nat).insert me 1).erase me = .empty :=
      AssocMap.erase_insert rfl 1
    have hsize : (AssocMap.empty : AssocMap Thread Nat).size = 0 := rfl
    simp [close, closeReader, AssocMap.get?_insert, hempty, hsize, free]
  | @readonly readers _ held reading depths bound =>
    have hsize : readers.size ≠ 0 := fun hzero => by
      obtain ⟨g, hg⟩ := List.exists_mem_of_ne_nil G held
      have hnone := AssocMap.get?_eq_none_of_size_eq_zero hzero g.thread
      rw [depths, if_neg fun hz => depth_eq_zero_iff.1 hz g hg rfl] at hnone
      cases hnone
    cases hmine : readers.get? me with
    | none =>
      simp only [read, hmine, reduceCtorEq, if_false, Except.ok.injEq, Prod.mk.injEq] at hread
      obtain ⟨rfl, rfl⟩ := hread
      refine ⟨?_, fun h => by cases h⟩
      simp [close, closeReader, AssocMap.get?_insert, AssocMap.erase_insert hmine, hsize]
    | some n =>
      have hpos : 0 < n := by
        have hn := (depths me).symm.trans hmine
        split at hn
        · cases hn
        next hz => exact Option.some.inj hn ▸ Nat.pos_of_ne_zero hz
      simp only [read, hmine, reduceCtorEq, if_false] at hread
      split at hread
      · cases hread
      · simp only [Except.ok.injEq, Prod.mk.injEq] at hread
        obtain ⟨rfl, rfl⟩ := hread
        refine ⟨?_, fun h => by cases h⟩
        have hmore : ¬ n + 1 ≤ 1 := by omega
        simp [close, closeReader, AssocMap.get?_insert, hmore,
          AssocMap.insert_insert_of_get? hmine, hsize]
  | @writable w _ held writing bound =>
    have hpos := List.length_pos_iff.2 held
    by_cases hw : w = me
    · subst hw
      simp only [read, reenter, if_true] at hread
      split at hread
      · cases hread
      · simp only [Except.map, Except.ok.injEq, Prod.mk.injEq] at hread
        obtain ⟨rfl, rfl⟩ := hread
        have hmore : ¬ G.length + 1 ≤ 1 := by omega
        refine ⟨?_, fun _ => by show 1 < G.length + 1; omega⟩
        simp [close, closeWriter, held]
    · simp [read, hw] at hread

/-- Nor does a further level of writing. -/
theorem close_again (h : r.Accounts limit G) {me : Thread} (mine : r.writer = some me) :
    { r with recursion := r.recursion + 1 }.closeWriter = r ∧ 0 < r.recursion := by
  cases h with
  | free => cases mine
  | readonly => cases mine
  | writable held => exact ⟨by simp [closeWriter, held], List.length_pos_iff.2 held⟩

theorem close_writtenBy (h : r.Accounts limit G) (me : Thread) (unheld : r.mode = .none) :
    (r.writtenBy me).closeWriter = r := by
  cases h with
  | free => rfl
  | readonly => cases unheld
  | writable => cases unheld

end LockRecord

namespace LockTable

variable {t t' t'' : LockTable} {G : List Guard} {g : Guard}

/-! ## Equal tables -/

/-- Tables with equal records, settings and numbers of written items. -/
structure Matches (t t' : LockTable) : Prop where
  settings : t.SameSettings t'
  writers : t'.writers = t.writers
  record : ∀ slot, t'.record slot = t.record slot

theorem Matches.refl (t : LockTable) : t.Matches t := ⟨.refl t, rfl, fun _ => rfl⟩

theorem Matches.symm (h : t.Matches t') : t'.Matches t :=
  ⟨⟨h.settings.limit.symm, h.settings.readonly.symm⟩, h.writers.symm,
    fun slot => (h.record slot).symm⟩

theorem Matches.trans (h : t.Matches t') (h' : t'.Matches t'') : t.Matches t'' :=
  ⟨h.settings.trans h'.settings, h'.writers.trans h.writers,
    fun slot => (h'.record slot).trans (h.record slot)⟩

theorem Matches.accounts (h : t.Matches t') (hacc : t.Accounts G) : t'.Accounts G :=
  ⟨h.settings.limit ▸ hacc.limit_pos, fun slot => by
    rw [h.record, h.settings.limit]
    exact hacc.record slot⟩

theorem Matches.tallied (h : t.Matches t') (ht : t.Tallied) : t'.Tallied :=
  ht.congr h.settings h.writers fun slot => by rw [h.record]

/-! ## Giving back -/

/-- What a guard counts for among the written items, if it is given back now. -/
def leaving (t : LockTable) (g : Guard) : Nat :=
  if g.hold = .writer ∧ (t.record g.item.slot).recursion ≤ 1 then 1 else 0

theorem record_release (t : LockTable) (g : Guard) (slot : Nat) : (t.release g).record slot =
    if g.item.slot = slot then (t.record g.item.slot).close g.thread g.hold
    else t.record slot := by
  obtain ⟨r, hr, hclose⟩ := release_rewrites t g
  rw [hr.record, hclose]
  cases g.hold <;> rfl

theorem writers_release (t : LockTable) (g : Guard) :
    (t.release g).writers = t.writers - t.leaving g := by
  cases hg : g.hold with
  | reader => simp [release, leaving, hg, setRecord]
  | writer =>
    by_cases hlast : (t.record g.item.slot).recursion ≤ 1 <;>
      simp [release, leaving, hg, setRecord, leaveWriter, hlast]

theorem Matches.release (h : t.Matches t') (g : Guard) : (t.release g).Matches (t'.release g) := by
  have hleaving : t'.leaving g = t.leaving g := by rw [leaving, leaving, h.record]
  refine ⟨?_, ?_, fun slot => ?_⟩
  · have hback : (t.release g).SameSettings t :=
      ⟨(sameSettings_release t g).limit.symm, (sameSettings_release t g).readonly.symm⟩
    exact (hback.trans h.settings).trans (sameSettings_release t' g)
  · rw [writers_release, writers_release, hleaving, h.writers]
  · rw [record_release, record_release, h.record, h.record]

theorem Matches.releaseAll (h : t.Matches t') (guards : List Guard) :
    (t.releaseAll guards).Matches (t'.releaseAll guards) := by
  induction guards generalizing t t' with
  | nil => exact h
  | cons g rest ih => exact ih (h.release g)

/-- Guards on different items may be given back in either order. -/
theorem release_comm (t : LockTable) {g g' : Guard} (hne : g.item.slot ≠ g'.item.slot) :
    ((t.release g).release g').Matches ((t.release g').release g) := by
  have hback : ∀ g : Guard, (t.release g).SameSettings t := fun g =>
    ⟨(sameSettings_release t g).limit.symm, (sameSettings_release t g).readonly.symm⟩
  refine ⟨?_, ?_, fun slot => ?_⟩
  · have hthere := (sameSettings_release t g').trans (sameSettings_release (t.release g') g)
    have hhere := (sameSettings_release t g).trans (sameSettings_release (t.release g) g')
    exact ⟨hthere.limit.trans hhere.limit.symm, hthere.readonly.trans hhere.readonly.symm⟩
  · have hleaving : (t.release g).leaving g' = t.leaving g' := by
      rw [leaving, leaving, record_release, if_neg hne]
    have hleaving' : (t.release g').leaving g = t.leaving g := by
      rw [leaving, leaving, record_release, if_neg (Ne.symm hne)]
    rw [writers_release, writers_release, writers_release, writers_release, hleaving, hleaving',
      Nat.sub_right_comm]
  · simp only [record_release, if_neg hne, if_neg (Ne.symm hne)]
    by_cases hs : g.item.slot = slot
    · have hs' : g'.item.slot ≠ slot := fun e => hne (hs.trans e.symm)
      rw [if_pos hs, if_neg hs', if_pos hs]
    · rw [if_neg hs, if_neg hs]

/-- Guards that a thread has on one item are held alike. -/
theorem Accounts.hold_eq (h : t.Accounts G) (hg : g ∈ G) {g' : Guard} (hg' : g' ∈ G)
    (hslot : g.item.slot = g'.item.slot) : g.hold = g'.hold := by
  have hm : g ∈ onSlot g.item.slot G := mem_onSlot.2 ⟨hg, rfl⟩
  have hm' : g' ∈ onSlot g.item.slot G := mem_onSlot.2 ⟨hg', hslot.symm⟩
  have hrec := h.record g.item.slot
  generalize onSlot g.item.slot G = L at hrec hm hm'
  generalize t.record g.item.slot = r at hrec
  cases hrec with
  | free => exact absurd hm List.not_mem_nil
  | readonly _ reading => rw [reading g hm, reading g' hm']
  | writable _ writing => rw [(writing g hm).1, (writing g' hm').1]

/-- Giving a guard back takes no notice of how its item is called. -/
theorem release_congr (t : LockTable) {g g' : Guard} (hslot : g.item.slot = g'.item.slot)
    (hthread : g.thread = g'.thread) (hhold : g.hold = g'.hold) :
    t.release g = t.release g' := by
  unfold release
  rw [hslot, hthread, hhold]

/-- A guard may be given back before others or after them, if those on its item are the
same thread's and held alike. -/
theorem releaseAll_comm (t : LockTable) {guards : List Guard}
    (halike : ∀ g' ∈ guards, g.item.slot = g'.item.slot →
      g.thread = g'.thread ∧ g.hold = g'.hold) :
    ((t.release g).releaseAll guards).Matches ((t.releaseAll guards).release g) := by
  induction guards generalizing t with
  | nil => exact .refl _
  | cons g' rest ih =>
    have hfirst : ((t.release g).release g').Matches ((t.release g').release g) := by
      by_cases hslot : g.item.slot = g'.item.slot
      · obtain ⟨hthread, hhold⟩ := halike g' List.mem_cons_self hslot
        rw [release_congr t hslot hthread hhold,
          release_congr (t.release g') hslot hthread hhold]
        exact .refl _
      · exact release_comm t hslot
    exact (hfirst.releaseAll rest).trans
      (ih (t.release g') fun g'' hm => halike g'' (List.mem_cons_of_mem g' hm))

/-! ## Taking and giving back -/

theorem release_acquire {me : Thread} {item : LockItem} {mode : LockMode} (hacc : t.Accounts G)
    (ha : t.acquire me item mode = .ok (g, t')) : t.Matches (t'.release g) := by
  obtain ⟨hme, hitem, hgot⟩ := acquire_cases ha
  have hrec := hacc.record item.slot
  have hsettings := (sameSettings_acquire ha).trans (sameSettings_release t' g)
  -- the record that was rewritten is as before, and so is every other one
  have hback : ∀ r n, t' = { t with writers := n, records := t.records.insert item.slot r } →
      r.close me g.hold = t.record item.slot →
      n - (if g.hold = .writer ∧ r.recursion ≤ 1 then 1 else 0) = t.writers →
        t.Matches (t'.release g) := by
    rintro r n rfl hclose hwriters
    have hrecord := record_setRecord t item.slot
    refine ⟨hsettings, ?_, fun slot => ?_⟩
    · rw [writers_release, leaving, hitem]
      have hr : ({ t with writers := n, records := t.records.insert item.slot r } :
          LockTable).record item.slot = r := (hrecord item.slot r).trans (if_pos rfl)
      rw [hr]
      exact hwriters
    · have hr : ∀ slot, ({ t with writers := n, records := t.records.insert item.slot r } :
          LockTable).record slot = if item.slot = slot then r else t.record slot :=
        fun slot => hrecord slot r
      rw [record_release, hitem, hme, hr, hr, if_pos rfl, hclose]
      split
      next hs => rw [hs]
      next => rfl
  generalize hhold : g.hold = hold at hgot hback
  cases hgot with
  | @read _ r hread =>
    obtain ⟨hclose, hlevels⟩ := LockRecord.close_read hrec hread
    refine hback r t.writers rfl hclose ?_
    rw [if_neg fun hlast => Nat.not_le.2 (hlevels hlast.1) hlast.2, Nat.sub_zero]
  | again mine =>
    obtain ⟨hclose, hlevels⟩ := LockRecord.close_again hrec mine
    refine hback _ t.writers rfl hclose ?_
    have hmore : ¬ (t.record item.slot).recursion + 1 ≤ 1 := by omega
    rw [if_neg fun hlast => hmore hlast.2, Nat.sub_zero]
  | first unheld =>
    exact hback _ (t.writers + 1) rfl (LockRecord.close_writtenBy hrec me unheld) rfl

/-- Along the items that are taken in order, giving back what has been taken so far leads
back to the start; a refusal does just that. -/
theorem balance_acquireInOrder {base : LockTable} {me : Thread} {mode : LockMode}
    {items : List LockItem} {taken : List Guard} {r : Except AccessError (List Guard)}
    (hacc : t.Accounts (taken ++ G)) (hbase : base.Matches (t.releaseAll taken))
    (hmine : ∀ g ∈ taken, g.thread = me)
    (hrun : acquireInOrder me mode items taken t = (r, t')) :
    base.Matches (t'.releaseAll (r.toOption.getD [])) := by
  induction items generalizing t taken with
  | nil =>
    cases hrun
    exact hbase
  | cons item rest ih =>
    unfold acquireInOrder at hrun
    cases ha : t.acquire me item mode with
    | error e =>
      rw [ha] at hrun
      cases hrun
      exact hbase
    | ok p =>
      obtain ⟨g, t₁⟩ := p
      rw [ha] at hrun
      have hme : g.thread = me := (acquire_ok ha).1
      have hperm : (g :: (taken ++ G)).Perm ((taken ++ [g]) ++ G) := by
        rw [List.append_assoc]
        exact List.perm_middle.symm
      have hacc₁ := accounts_acquire hacc ha
      -- the new guard is held like the ones that have been taken on its item
      have halike : ∀ g' ∈ taken, g.item.slot = g'.item.slot →
          g.thread = g'.thread ∧ g.hold = g'.hold := fun g' hm hslot =>
        ⟨hme.trans (hmine g' hm).symm, hacc₁.hold_eq List.mem_cons_self
          (List.mem_cons_of_mem g (List.mem_append_left G hm)) hslot⟩
      have hstep : base.Matches (t₁.releaseAll (taken ++ [g])) := by
        have hlast : t₁.releaseAll (taken ++ [g]) = (t₁.releaseAll taken).release g :=
          List.foldl_append
        rw [hlast]
        exact hbase.trans (((release_acquire hacc ha).releaseAll taken).trans
          (releaseAll_comm t₁ halike))
      refine ih (hacc₁.perm hperm) hstep (fun g' hm => ?_) hrun
      rcases List.mem_append.1 hm with hm | hm
      · exact hmine g' hm
      · rw [List.mem_singleton.1 hm, hme]

theorem balance_acquireMany {me : Thread} {mode : LockMode} {items : List LockItem}
    {r : Except Error (List Guard)} (hacc : t.Accounts G)
    (hrun : t.acquireMany me items mode = (r, t')) :
    t.Matches (t'.releaseAll (r.toOption.getD [])) := by
  simp only [acquireMany] at hrun
  split at hrun
  next =>
    cases hrun
    exact .refl t
  next =>
    cases hin : acquireInOrder me mode (items.mergeSort fun a b => a.ordinal ≤ b.ordinal) [] t with
    | mk r' t₁ =>
      rw [hin] at hrun
      cases hrun
      have hnone : t.Accounts ([] ++ G) := hacc
      have hbalance := balance_acquireInOrder hnone (.refl t)
        (fun _ hm => absurd hm List.not_mem_nil) hin
      cases r' <;> exact hbalance

end LockTable

end Arcbase
