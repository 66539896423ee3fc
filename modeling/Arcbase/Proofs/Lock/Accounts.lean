import Arcbase.Lock.Table
import Arcbase.Proofs.AssocMap
import Mathlib.Data.List.Perm.Basic
set_option autoImplicit false

/-!
# Lock records account for guards

The guards that are held are no part of a lock table.  This file carries them
along as a list and says what a record has to be for them: free, readers with
their numbers of guards, or one writer with the number of its guards.

* `accounts_acquire`, `accounts_release`: the records move as the guards move;
* `acquire_writable_iff`, `acquire_readonly_iff`: who is given access;
* `isOutermost_iff`: which guard is a writer's last one.

The order of the list does not matter, so guards are given back in any order.
-/

namespace Arcbase

/-! ## Guards on one item -/

namespace Guard

/-- The guards on the item in a slot. -/
def onSlot (slot : Nat) (G : List Guard) : List Guard := G.filter fun g => g.item.slot = slot

/-- Number of guards of a thread. -/
def depth (u : Thread) (G : List Guard) : Nat := G.countP fun g => g.thread = u

/-- Every guard on the item is a writer's guard of the thread. -/
def Open (G : List Guard) (u : Thread) (slot : Nat) : Prop :=
  ∀ g ∈ G, g.item.slot = slot → g.hold = .writer ∧ g.thread = u

theorem mem_onSlot {slot : Nat} {G : List Guard} {g : Guard} :
    g ∈ onSlot slot G ↔ g ∈ G ∧ g.item.slot = slot := by
  simp [onSlot]

theorem onSlot_cons (slot : Nat) (g : Guard) (G : List Guard) :
    onSlot slot (g :: G) = if g.item.slot = slot then g :: onSlot slot G else onSlot slot G := by
  by_cases h : g.item.slot = slot <;> simp [onSlot, h]

theorem depth_cons (u : Thread) (g : Guard) (G : List Guard) :
    depth u (g :: G) = depth u G + if g.thread = u then 1 else 0 := by
  by_cases h : g.thread = u <;> simp [depth, h]

theorem depth_eq_zero_iff {u : Thread} {G : List Guard} :
    depth u G = 0 ↔ ∀ g ∈ G, g.thread ≠ u := by
  simp [depth, List.countP_eq_zero]

theorem Open.mono {G G' : List Guard} {u : Thread} {slot : Nat} (h : Open G u slot)
    (hs : ∀ g ∈ G', g ∈ G) : Open G' u slot := fun g hg => h g (hs g hg)

theorem Open.of_cons {g : Guard} {G : List Guard} {u : Thread} {slot : Nat}
    (h : Open (g :: G) u slot) : Open G u slot := h.mono fun _ => List.mem_cons_of_mem g

end Guard

/-! ## Records -/

namespace LockRecord

open Guard

/-- The record is the one that the guards on its item amount to. -/
inductive Accounts (limit : Nat) : LockRecord → List Guard → Prop where
  | free : Accounts limit .free []
  | readonly {readers : AssocMap Thread Nat} {G : List Guard} (held : G ≠ [])
      (reading : ∀ g ∈ G, g.hold = .reader)
      (depths : ∀ u, readers.get? u = if depth u G = 0 then none else some (depth u G))
      (bound : ∀ u, depth u G ≤ limit) :
      Accounts limit { mode := .readonly, readers } G
  | writable {me : Thread} {G : List Guard} (held : G ≠ [])
      (writing : ∀ g ∈ G, g.hold = .writer ∧ g.thread = me) (bound : G.length ≤ limit) :
      Accounts limit { mode := .writable, writer := some me, recursion := G.length } G

variable {limit : Nat} {r : LockRecord} {G : List Guard}

theorem Accounts.perm (h : r.Accounts limit G) {G' : List Guard} (p : G.Perm G') :
    r.Accounts limit G' := by
  cases h with
  | free =>
    rw [List.nil_perm.1 p]
    exact .free
  | readonly held reading depths bound =>
    have hd : ∀ u, depth u G = depth u G' := fun u => p.countP_eq _
    refine .readonly (fun e => held (by rw [e] at p; exact p.eq_nil)) ?_ ?_ ?_
    · exact fun g hg => reading g (p.mem_iff.2 hg)
    · intro u
      rw [depths u, hd u]
    · exact fun u => hd u ▸ bound u
  | writable held writing bound =>
    rw [p.length_eq] at bound ⊢
    exact .writable (fun e => held (by rw [e] at p; exact p.eq_nil))
      (fun g hg => writing g (p.mem_iff.2 hg)) bound

/-- Two records with the same holders at the same levels. -/
structure Same (r r' : LockRecord) : Prop where
  mode : r.mode = r'.mode
  writer : r.writer = r'.writer
  recursion : r.recursion = r'.recursion
  readers : ∀ u, r.readers.get? u = r'.readers.get? u

/-- The guards determine the record, apart from the order of its readers. -/
theorem Accounts.same {r' : LockRecord} (h : r.Accounts limit G) (h' : r'.Accounts limit G) :
    r.Same r' := by
  cases h with
  | free =>
    cases h' with
    | free => exact ⟨rfl, rfl, rfl, fun _ => rfl⟩
    | readonly held => exact absurd rfl held
    | writable held => exact absurd rfl held
  | readonly held reading depths =>
    cases h' with
    | free => exact absurd rfl held
    | readonly _ _ depths' => exact ⟨rfl, rfl, rfl, fun u => (depths u).trans (depths' u).symm⟩
    | writable _ writing =>
      obtain ⟨g, hg⟩ := List.exists_mem_of_ne_nil G held
      have hclash := (reading g hg).symm.trans (writing g hg).1
      cases hclash
  | writable held writing =>
    cases h' with
    | free => exact absurd rfl held
    | readonly _ reading =>
      obtain ⟨g, hg⟩ := List.exists_mem_of_ne_nil G held
      have hclash := (reading g hg).symm.trans (writing g hg).1
      cases hclash
    | writable _ writing' =>
      obtain ⟨g, hg⟩ := List.exists_mem_of_ne_nil G held
      have heq := (writing g hg).2.symm.trans (writing' g hg).2
      exact ⟨rfl, congrArg some heq, rfl, fun _ => rfl⟩

/-! ### Taking a level -/

/-- One more guard of a reader. -/
theorem Accounts.addReader {readers : AssocMap Thread Nat} {g : Guard}
    (reading : ∀ g ∈ G, g.hold = .reader)
    (depths : ∀ u, readers.get? u = if depth u G = 0 then none else some (depth u G))
    (bound : ∀ u, depth u G ≤ limit) (hg : g.hold = .reader) (hl : depth g.thread G < limit) :
    Accounts limit
      { mode := .readonly, readers := readers.insert g.thread (depth g.thread G + 1) }
      (g :: G) := by
  refine .readonly (List.cons_ne_nil g G) ?_ ?_ ?_
  · intro g' hg'
    rcases List.mem_cons.1 hg' with rfl | hm
    · exact hg
    · exact reading g' hm
  · intro u
    rw [AssocMap.get?_insert, depth_cons]
    by_cases hu : g.thread = u
    · subst hu
      simp
    · simp only [hu, if_false, Nat.add_zero]
      exact depths u
  · intro u
    rw [depth_cons]
    by_cases hu : g.thread = u
    · subst hu
      rw [if_pos rfl]
      exact hl
    · rw [if_neg hu]
      exact bound u

/-- One more guard of the writer. -/
theorem Accounts.addWriter {me : Thread} {g : Guard}
    (writing : ∀ g ∈ G, g.hold = .writer ∧ g.thread = me) (hg : g.hold = .writer)
    (hme : g.thread = me) (hl : G.length < limit) :
    Accounts limit { mode := .writable, writer := some me, recursion := G.length + 1 }
      (g :: G) := by
  refine .writable (List.cons_ne_nil g G) ?_ hl
  intro g' hg'
  rcases List.mem_cons.1 hg' with rfl | hm
  · exact ⟨hg, hme⟩
  · exact writing g' hm

theorem accounts_read {me : Thread} {label : String} {hold : Hold} {r' : LockRecord}
    (h : r.Accounts limit G) (hpos : 0 < limit) (hr : r.read me limit label = .ok (hold, r'))
    (item : LockItem) : r'.Accounts limit (⟨me, item, hold⟩ :: G) := by
  cases h with
  | free =>
    simp only [read, free, AssocMap.get?_empty, reduceCtorEq, if_false, Except.ok.injEq,
      Prod.mk.injEq] at hr
    obtain ⟨rfl, rfl⟩ := hr
    exact Accounts.addReader (G := []) (g := ⟨me, item, .reader⟩) (by simp) (fun _ => rfl)
      (fun _ => Nat.zero_le _) rfl hpos
  | @readonly readers _ held reading depths bound =>
    have hadd := fun hl => Accounts.addReader (g := ⟨me, item, .reader⟩) reading depths bound rfl hl
    simp only [read, reduceCtorEq, if_false, depths me] at hr
    by_cases hz : depth me G = 0
    · simp only [hz, if_true, Except.ok.injEq, Prod.mk.injEq] at hr
      obtain ⟨rfl, rfl⟩ := hr
      simpa [hz] using hadd (by simpa [hz] using hpos)
    · simp only [hz, if_false] at hr
      split at hr
      · cases hr
      next hlt =>
        simp only [Except.ok.injEq, Prod.mk.injEq] at hr
        obtain ⟨rfl, rfl⟩ := hr
        exact hadd (by simpa using hlt)
  | @writable w _ held writing bound =>
    by_cases hw : w = me
    · subst hw
      simp only [read, reenter, if_true] at hr
      split at hr
      · cases hr
      next hlt =>
        simp only [Except.map, Except.ok.injEq, Prod.mk.injEq] at hr
        obtain ⟨rfl, rfl⟩ := hr
        exact Accounts.addWriter writing rfl rfl (by simpa using hlt)
    · simp only [read, Option.some.injEq, hw, if_false, AssocMap.get?_empty, if_true,
        reduceCtorEq] at hr

/-! ### Giving a level back -/

/-- The record with the readers that are left. -/
theorem accounts_readers {left : AssocMap Thread Nat} (reading : ∀ g ∈ G, g.hold = .reader)
    (hget : ∀ u, left.get? u = if depth u G = 0 then none else some (depth u G))
    (hbound : ∀ u, depth u G ≤ limit) :
    Accounts limit { mode := if left.size = 0 then .none else .readonly, readers := left } G := by
  by_cases hgs : G = []
  · subst hgs
    have hz : left.size = 0 := AssocMap.size_eq_zero_iff.2 hget
    rw [if_pos hz, AssocMap.eq_empty_of_size_eq_zero hz]
    exact .free
  · obtain ⟨g', hg'⟩ := List.exists_mem_of_ne_nil G hgs
    have hd : depth g'.thread G ≠ 0 := fun e => depth_eq_zero_iff.1 e g' hg' rfl
    have hz : left.size ≠ 0 := by
      intro e
      have hnone := AssocMap.get?_eq_none_of_size_eq_zero e g'.thread
      rw [hget, if_neg hd] at hnone
      cases hnone
    rw [if_neg hz]
    exact .readonly hgs reading hget hbound

theorem accounts_closeReader {g : Guard} (h : r.Accounts limit (g :: G)) (hg : g.hold = .reader) :
    (r.closeReader g.thread).Accounts limit G := by
  cases h with
  | @readonly readers _ held reading depths bound =>
    have hreading : ∀ g' ∈ G, g'.hold = .reader := fun g' hm =>
      reading g' (List.mem_cons_of_mem g hm)
    have hbound : ∀ u, depth u G ≤ limit := by
      intro u
      have hb := bound u
      rw [depth_cons] at hb
      omega
    have hmine : readers.get? g.thread = some (depth g.thread G + 1) := by
      rw [depths, depth_cons, if_pos rfl]
      rfl
    have hothers : ∀ u, g.thread ≠ u →
        readers.get? u = if depth u G = 0 then none else some (depth u G) := by
      intro u hu
      rw [depths, depth_cons, if_neg hu]
      rfl
    by_cases hz : depth g.thread G = 0
    · have hclose : LockRecord.closeReader { mode := .readonly, readers } g.thread =
          { mode := if (readers.erase g.thread).size = 0 then .none else .readonly
            readers := readers.erase g.thread } := by
        simp [closeReader, hmine, hz]
      rw [hclose]
      refine accounts_readers hreading (fun u => ?_) hbound
      rw [AssocMap.get?_erase]
      by_cases hu : g.thread = u
      · rw [if_pos hu, ← hu, hz]
        rfl
      · rw [if_neg hu, hothers u hu]
    · have hclose : LockRecord.closeReader { mode := .readonly, readers } g.thread =
          { mode := if (readers.insert g.thread (depth g.thread G)).size = 0 then .none
              else .readonly
            readers := readers.insert g.thread (depth g.thread G) } := by
        simp [closeReader, hmine, hz]
      rw [hclose]
      refine accounts_readers hreading (fun u => ?_) hbound
      rw [AssocMap.get?_insert]
      by_cases hu : g.thread = u
      · subst hu
        rw [if_pos rfl, if_neg hz]
      · rw [if_neg hu, hothers u hu]
  | writable _ writing =>
    have hclash := hg.symm.trans (writing g List.mem_cons_self).1
    cases hclash

theorem accounts_closeWriter {g : Guard} (h : r.Accounts limit (g :: G)) (hg : g.hold = .writer) :
    r.closeWriter.Accounts limit G := by
  cases h with
  | readonly _ reading =>
    have hclash := hg.symm.trans (reading g List.mem_cons_self)
    cases hclash
  | @writable me _ _ writing bound =>
    cases G with
    | nil => exact .free
    | cons g' rest =>
      have hrest : Accounts limit
          { mode := .writable, writer := some me, recursion := (g' :: rest).length } (g' :: rest) :=
        .writable (List.cons_ne_nil g' rest)
        (fun g'' hm => writing g'' (List.mem_cons_of_mem g hm)) (Nat.le_of_succ_le bound)
      simpa [closeWriter] using hrest

/-! ### Changing the access -/

theorem accounts_writtenBy {g : Guard} (hpos : 0 < limit) (hg : g.hold = .writer) :
    (LockRecord.free.writtenBy g.thread).Accounts limit [g] :=
  .writable (List.cons_ne_nil g []) (by simp [hg]) hpos

/-- A thread that reads alone, at one level, has the only guard. -/
theorem Accounts.of_isSoleReader {g : Guard} (h : r.Accounts limit (g :: G))
    (hs : r.isSoleReader g.thread = true) : G = [] := by
  have hentries : r.readers.entries = [(g.thread, 1)] := by simpa [isSoleReader] using hs
  cases h with
  | @readonly readers _ held reading depths bound =>
    have hget : ∀ u, readers.get? u = if g.thread = u then some 1 else none := by
      intro u
      rw [AssocMap.get?, hentries]
      rfl
    by_contra hne
    obtain ⟨g', hg'⟩ := List.exists_mem_of_ne_nil G hne
    have hd : depth g'.thread G ≠ 0 := fun e => depth_eq_zero_iff.1 e g' hg' rfl
    have hu := (hget g'.thread).symm.trans (depths g'.thread)
    rw [depth_cons] at hu
    split at hu <;> simp [hd] at hu
  | writable held writing =>
    simp [AssocMap.empty] at hentries

theorem accounts_downgrade {g : Guard} (hpos : 0 < limit) (hg : g.hold = .reader) :
    Accounts limit { mode := .readonly, readers := AssocMap.empty.insert g.thread 1 } [g] :=
  Accounts.addReader (G := []) (by simp) (fun _ => rfl) (fun _ => Nat.zero_le _) hg hpos

end LockRecord

/-! ## Tables -/

namespace LockTable

open Guard

/-- Every record is the one that the guards amount to. -/
structure Accounts (t : LockTable) (G : List Guard) : Prop where
  limit_pos : 0 < t.limit
  record : ∀ slot, (t.record slot).Accounts t.limit (onSlot slot G)

theorem accounts_new (limit defaultWait : Nat) : (new limit defaultWait).Accounts [] :=
  ⟨Nat.lt_of_lt_of_le Nat.zero_lt_one (Nat.le_max_right limit 1), fun _ => .free⟩

theorem Accounts.perm {t : LockTable} {G G' : List Guard} (h : t.Accounts G)
    (p : G.Perm G') : t.Accounts G' :=
  ⟨h.limit_pos, fun slot => (h.record slot).perm (p.filter _)⟩

/-- The tables that differ from a given one in one record, and in the number of
writers, have the same settings. -/
def Rewrites (t : LockTable) (slot : Nat) (r : LockRecord) (t' : LockTable) : Prop :=
  ∃ writers, t' = { t with writers, records := t.records.insert slot r }

variable {t t' : LockTable} {G : List Guard} {g : Guard}

theorem Rewrites.record {slot : Nat} {r : LockRecord} (h : t.Rewrites slot r t') (slot' : Nat) :
    t'.record slot' = if slot = slot' then r else t.record slot' := by
  obtain ⟨n, rfl⟩ := h
  exact record_setRecord t slot slot' r

theorem Rewrites.limit {slot : Nat} {r : LockRecord} (h : t.Rewrites slot r t') :
    t'.limit = t.limit := by
  obtain ⟨n, rfl⟩ := h
  rfl

theorem Rewrites.readonly {slot : Nat} {r : LockRecord} (h : t.Rewrites slot r t') :
    t'.readonly = t.readonly := by
  obtain ⟨n, rfl⟩ := h
  rfl

/-- A record is rewritten as the guards on its item change. -/
theorem Accounts.rewrite {G' : List Guard} {slot : Nat} {r : LockRecord} (h : t.Accounts G)
    (hr : t.Rewrites slot r t') (ha : r.Accounts t.limit (onSlot slot G'))
    (ho : ∀ slot', slot ≠ slot' → onSlot slot' G' = onSlot slot' G) : t'.Accounts G' := by
  refine ⟨hr.limit ▸ h.limit_pos, fun slot' => ?_⟩
  rw [hr.limit, hr.record]
  by_cases hs : slot = slot'
  · rw [if_pos hs]
    exact hs ▸ ha
  · rw [if_neg hs, ho slot' hs]
    exact h.record slot'

/-! ### Taking -/

/-- The record after a thread has been given writable access. -/
inductive Writes (t : LockTable) (me : Thread) (slot : Nat) : LockRecord → Prop where
  | again (mine : (t.record slot).writer = some me) (below : (t.record slot).recursion < t.limit) :
      Writes t me slot
        { t.record slot with writer := some me, recursion := (t.record slot).recursion + 1 }
  | first (unheld : (t.record slot).mode = .none) (open' : t.readonly = false) :
      Writes t me slot ((t.record slot).writtenBy me)

theorem acquireWritable_ok {me : Thread} {item : LockItem} {hold : Hold}
    (h : t.acquireWritable me item = .ok (hold, t')) :
    hold = .writer ∧ ∃ r, t.Rewrites item.slot r t' ∧ t.Writes me item.slot r := by
  simp only [acquireWritable, LockRecord.reenter, enterWriter, bind, Except.bind, pure, Except.pure,
    throw, throwThe, MonadExceptOf.throw] at h
  by_cases hw : (t.record item.slot).writer = some me
  · by_cases hl : t.limit ≤ (t.record item.slot).recursion
    · simp [hw, hl] at h
    · simp only [hw, if_true, hl, if_false, Except.ok.injEq, Prod.mk.injEq] at h
      obtain ⟨rfl, rfl⟩ := h
      exact ⟨rfl, _, ⟨t.writers, rfl⟩, .again hw (Nat.lt_of_not_le hl)⟩
  · by_cases hc : (t.record item.slot).readers.contains me = true
    · simp [hw, hc] at h
    · by_cases hro : t.readonly = true
      · simp [hw, hc, hro] at h
      · by_cases hm : (t.record item.slot).mode = .none
        · have hopen : t.readonly = false := by simpa using hro
          simp only [hw, hc, hro, hm, if_true, if_false] at h
          cases h
          exact ⟨rfl, _, ⟨t.writers + 1, by simp [setRecord, hopen]⟩, .first hm hopen⟩
        · simp [hw, hc, hro, hm] at h

theorem acquire_ok {me : Thread} {item : LockItem} {mode : LockMode}
    (h : t.acquire me item mode = .ok (g, t')) :
    g.thread = me ∧ g.item = item ∧ ∃ r, t.Rewrites item.slot r t' ∧
      ((mode = .readonly ∧ (t.record item.slot).read me t.limit item.label = .ok (g.hold, r)) ∨
        (mode = .writable ∧ g.hold = .writer ∧ t.Writes me item.slot r)) := by
  cases mode with
  | none => cases h
  | readonly =>
    simp only [acquire, acquireReadonly, bind, Except.bind, pure, Except.pure] at h
    cases hr : (t.record item.slot).read me t.limit item.label with
    | error e => simp [hr] at h
    | ok p =>
      simp only [hr, Except.ok.injEq, Prod.mk.injEq] at h
      obtain ⟨rfl, rfl⟩ := h
      exact ⟨rfl, rfl, p.2, ⟨t.writers, rfl⟩, .inl ⟨rfl, rfl⟩⟩
  | writable =>
    simp only [acquire, bind, Except.bind, pure, Except.pure] at h
    cases hw : t.acquireWritable me item with
    | error e => simp [hw] at h
    | ok p =>
      simp only [hw, Except.ok.injEq, Prod.mk.injEq] at h
      obtain ⟨rfl, rfl⟩ := h
      obtain ⟨hold, r, hr⟩ := acquireWritable_ok hw
      exact ⟨rfl, rfl, r, hr.1, .inr ⟨rfl, hold, hr.2⟩⟩

theorem accounts_writes {me : Thread} {slot : Nat} {r : LockRecord} (h : t.Accounts G)
    (hw : t.Writes me slot r) (hg : g.hold = .writer) (hme : g.thread = me) :
    r.Accounts t.limit (g :: onSlot slot G) ∧ Open G me slot := by
  have hrec := h.record slot
  generalize hgs : onSlot slot G = held at hrec ⊢
  have hmem : ∀ g' ∈ G, g'.item.slot = slot → g' ∈ held :=
    fun g' hm hs => hgs ▸ mem_onSlot.2 ⟨hm, hs⟩
  cases hw with
  | again mine below =>
    generalize t.record slot = r at mine below hrec
    cases hrec with
    | free => cases mine
    | readonly => cases mine
    | writable _ writing bound =>
      cases mine
      exact ⟨LockRecord.Accounts.addWriter writing hg hme below,
        fun g' hm hs => writing g' (hmem g' hm hs)⟩
  | first unheld =>
    generalize t.record slot = r at unheld hrec
    cases hrec with
    | free =>
      refine ⟨hme ▸ LockRecord.accounts_writtenBy h.limit_pos hg, fun g' hm hs => ?_⟩
      exact absurd (hmem g' hm hs) List.not_mem_nil
    | readonly => cases unheld
    | writable => cases unheld

theorem accounts_acquire {me : Thread} {item : LockItem} {mode : LockMode} (h : t.Accounts G)
    (ha : t.acquire me item mode = .ok (g, t')) : t'.Accounts (g :: G) := by
  obtain ⟨hme, hitem, r, hr, hcase⟩ := acquire_ok ha
  have hslot : g.item.slot = item.slot := congrArg LockItem.slot hitem
  refine h.rewrite hr ?_ fun slot' hs => by rw [onSlot_cons, if_neg (hslot ▸ hs)]
  rw [onSlot_cons, if_pos hslot]
  rcases hcase with ⟨-, hread⟩ | ⟨-, hhold, hwrites⟩
  · have hacc := LockRecord.accounts_read (h.record item.slot) h.limit_pos hread item
    obtain ⟨thread, item', hold⟩ := g
    cases hme
    cases hitem
    exact hacc
  · exact (accounts_writes h hwrites hhold hme).1

/-- A thread that is given writable access holds the item alone. -/
theorem open_of_acquire {me : Thread} {item : LockItem} (h : t.Accounts G)
    (ha : t.acquire me item .writable = .ok (g, t')) :
    g.hold = .writer ∧ Open G me item.slot := by
  obtain ⟨hme, _, r, _, hcase⟩ := acquire_ok ha
  rcases hcase with ⟨hmode, -⟩ | ⟨-, hhold, hwrites⟩
  · cases hmode
  · exact ⟨hhold, (accounts_writes h hwrites hhold hme).2⟩

/-- Readonly access is a writer's guard only inside writable access. -/
theorem held_of_acquire_readonly {me : Thread} {item : LockItem} (h : t.Accounts G)
    (ha : t.acquire me item .readonly = .ok (g, t')) (hg : g.hold = .writer) :
    onSlot item.slot G ≠ [] := by
  obtain ⟨_, _, r, _, hcase⟩ := acquire_ok ha
  rcases hcase with ⟨-, hread⟩ | ⟨hmode, -⟩
  · intro hnone
    have hrec := h.record item.slot
    rw [hnone] at hrec
    generalize t.record item.slot = r₀ at hrec hread
    cases hrec with
    | free =>
      have hreader := (Prod.mk.inj (Except.ok.inj hread)).1
      rw [hg] at hreader
      cases hreader
    | readonly held => exact held rfl
    | writable held => exact held rfl
  · cases hmode

/-- While some guard on an item is a writer's, all of them are guards of its thread. -/
theorem open_of_writer (h : t.Accounts G) (hm : g ∈ G) (hg : g.hold = .writer) :
    Open G g.thread g.item.slot := by
  have hrec := h.record g.item.slot
  generalize t.record g.item.slot = r at hrec
  generalize hgs : onSlot g.item.slot G = held at hrec
  have hmem : ∀ g' ∈ G, g'.item.slot = g.item.slot → g' ∈ held :=
    fun g' hm hs => hgs ▸ mem_onSlot.2 ⟨hm, hs⟩
  cases hrec with
  | free => exact absurd (hmem g hm rfl) List.not_mem_nil
  | readonly _ reading =>
    have hclash := hg.symm.trans (reading g (hmem g hm rfl))
    cases hclash
  | writable _ writing =>
    intro g' hm' hs
    have hmine := writing g (hmem g hm rfl)
    have hother := writing g' (hmem g' hm' hs)
    exact ⟨hother.1, hother.2.trans hmine.2.symm⟩

/-- A writer has no more guards on an item than the limit allows. -/
theorem length_le_of_writer (h : t.Accounts G) (hm : g ∈ G) (hg : g.hold = .writer) :
    (onSlot g.item.slot G).length ≤ t.limit := by
  have hrec := h.record g.item.slot
  generalize t.record g.item.slot = r at hrec
  have hmem := mem_onSlot.2 ⟨hm, rfl⟩
  generalize onSlot g.item.slot G = held at hrec hmem ⊢
  cases hrec with
  | free => exact absurd hmem List.not_mem_nil
  | readonly _ reading =>
    have hclash := hg.symm.trans (reading g hmem)
    cases hclash
  | writable _ _ bound => exact bound

/-- Writable access is given exactly to a thread that holds the item alone, as its
writer, below the limit; it has to hold the item already while the flag is up. -/
theorem acquire_writable_iff {me : Thread} {item : LockItem} (h : t.Accounts G) :
    (∃ p, t.acquire me item .writable = .ok p) ↔
      Open G me item.slot ∧ (onSlot item.slot G).length < t.limit ∧
        (t.readonly = true → onSlot item.slot G ≠ []) := by
  have hrec := h.record item.slot
  constructor
  · rintro ⟨⟨g, t'⟩, ha⟩
    have hacc := (accounts_acquire h ha).record item.slot
    obtain ⟨hme, hitem, r, hr, hcase⟩ := acquire_ok ha
    have hhold := (open_of_acquire h ha).1
    rw [hr.limit, onSlot_cons, if_pos (congrArg LockItem.slot hitem)] at hacc
    refine ⟨(open_of_acquire h ha).2, ?_, fun hflag => ?_⟩
    · generalize t'.record item.slot = r' at hacc
      cases hacc with
      | readonly _ reading =>
        have hclash := hhold.symm.trans (reading g List.mem_cons_self)
        cases hclash
      | writable _ _ bound => exact bound
    · rcases hcase with ⟨hmode, -⟩ | ⟨-, -, hwrites⟩
      · cases hmode
      · cases hwrites with
        | again mine =>
          generalize t.record item.slot = r at mine hrec
          generalize onSlot item.slot G = held at hrec
          cases hrec with
          | free => cases mine
          | readonly => cases mine
          | writable hne => exact hne
        | first _ open' =>
          rw [hflag] at open'
          cases open'
  · rintro ⟨hmine, hlt, hflag⟩
    simp only [acquire, acquireWritable, LockRecord.reenter, enterWriter, bind, Except.bind, pure,
      Except.pure, throw, throwThe, MonadExceptOf.throw]
    generalize t.record item.slot = r at hrec
    generalize hgs : onSlot item.slot G = held at hrec hlt hflag
    cases hrec with
    | free =>
      have hopen : t.readonly = false := by simpa using hflag
      simp [LockRecord.free, AssocMap.contains, hopen]
    | readonly hne reading =>
      obtain ⟨g, hg⟩ := List.exists_mem_of_ne_nil _ hne
      have hm := mem_onSlot.1 (hgs ▸ hg)
      have hclash := (reading g hg).symm.trans (hmine g hm.1 hm.2).1
      cases hclash
    | writable hne writing bound =>
      obtain ⟨g, hg⟩ := List.exists_mem_of_ne_nil _ hne
      have hm := mem_onSlot.1 (hgs ▸ hg)
      have heq := (writing g hg).2.symm.trans (hmine g hm.1 hm.2).2
      simp [heq, Nat.not_le.2 hlt]

/-- Readonly access is given exactly where no other thread writes, to a thread below
the limit; a raised flag does not matter. -/
theorem acquire_readonly_iff {me : Thread} {item : LockItem} (h : t.Accounts G) :
    (∃ p, t.acquire me item .readonly = .ok p) ↔
      (∀ g ∈ onSlot item.slot G, g.hold = .writer → g.thread = me) ∧
        depth me (onSlot item.slot G) < t.limit := by
  have hread : (∃ p, t.acquire me item .readonly = .ok p) ↔
      ∃ p, (t.record item.slot).read me t.limit item.label = .ok p := by
    simp only [acquire, acquireReadonly, bind, Except.bind, pure, Except.pure]
    cases (t.record item.slot).read me t.limit item.label <;> simp
  have hrec := h.record item.slot
  rw [hread]
  generalize t.record item.slot = r at hrec
  generalize onSlot item.slot G = held at hrec
  cases hrec with
  | free => simpa [LockRecord.read, LockRecord.free, depth] using h.limit_pos
  | readonly hne reading depths bound =>
    have hnoWriter : ∀ g ∈ held, g.hold = .writer → g.thread = me := by
      intro g hg hw
      rw [reading g hg] at hw
      cases hw
    simp only [LockRecord.read, reduceCtorEq, if_false, depths me]
    by_cases hz : depth me held = 0
    · simpa [hz, h.limit_pos] using hnoWriter
    · by_cases hl : t.limit ≤ depth me held
      · simp [hz, hl, Nat.not_lt.2 hl]
      · simpa [hz, hl, Nat.lt_of_not_le hl] using hnoWriter
  | @writable w _ hne writing bound =>
    by_cases hw : w = me
    · have hdepth : depth me held = held.length :=
        List.countP_eq_length.2 fun g hg => by simpa using (writing g hg).2.trans hw
      have hmine : ∀ g ∈ held, g.hold = .writer → g.thread = me :=
        fun g hg _ => (writing g hg).2.trans hw
      rw [hdepth]
      by_cases hl : t.limit ≤ held.length
      · simp [LockRecord.read, LockRecord.reenter, hw, hl, Except.map, Nat.not_lt.2 hl]
      · simpa [LockRecord.read, LockRecord.reenter, hw, hl, Except.map, Nat.lt_of_not_le hl]
          using hmine
    · obtain ⟨g, hg⟩ := List.exists_mem_of_ne_nil held hne
      have hother : ¬ ∀ g ∈ held, g.hold = .writer → g.thread = me := fun hall =>
        hw ((writing g hg).2.symm.trans (hall g hg (writing g hg).1))
      simp [LockRecord.read, hw, hother]

/-! ### Giving back -/

theorem release_rewrites (t : LockTable) (g : Guard) :
    ∃ r, t.Rewrites g.item.slot r (t.release g) ∧
      r = match g.hold with
        | .reader => (t.record g.item.slot).closeReader g.thread
        | .writer => (t.record g.item.slot).closeWriter := by
  refine ⟨_, ?_, rfl⟩
  cases hg : g.hold with
  | reader => exact ⟨t.writers, by simp [release, hg, setRecord]⟩
  | writer =>
    by_cases hlast : (t.record g.item.slot).recursion ≤ 1
    · exact ⟨t.writers - 1, by simp [release, hg, setRecord, hlast, leaveWriter]⟩
    · exact ⟨t.writers, by simp [release, hg, setRecord, hlast]⟩

theorem accounts_release (h : t.Accounts (g :: G)) : (t.release g).Accounts G := by
  have hrec := h.record g.item.slot
  rw [onSlot_cons, if_pos rfl] at hrec
  obtain ⟨r, hr, hclose⟩ := release_rewrites t g
  refine h.rewrite hr ?_ fun slot' hs => by rw [onSlot_cons, if_neg hs]
  cases hg : g.hold with
  | reader =>
    rw [hclose, hg]
    exact LockRecord.accounts_closeReader hrec hg
  | writer =>
    rw [hclose, hg]
    exact LockRecord.accounts_closeWriter hrec hg

/-- A writer's guard is the outermost one exactly if there is no other guard on its
item. -/
theorem isOutermost_iff (h : t.Accounts (g :: G)) (hg : g.hold = .writer) :
    t.isOutermost g = true ↔ onSlot g.item.slot G = [] := by
  have hrec := h.record g.item.slot
  rw [onSlot_cons, if_pos rfl] at hrec
  have hlevels : t.levels g = (onSlot g.item.slot G).length + 1 := by
    rw [levels, hg]
    generalize t.record g.item.slot = r at hrec
    cases hrec with
    | readonly _ reading =>
      have hclash := hg.symm.trans (reading g List.mem_cons_self)
      cases hclash
    | writable => rfl
  rw [isOutermost, hlevels, beq_iff_eq, ← List.length_eq_zero_iff]
  omega

end LockTable

end Arcbase
