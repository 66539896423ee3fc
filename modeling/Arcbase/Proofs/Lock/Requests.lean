import Arcbase.Proofs.Lock.Accounts
set_option autoImplicit false

/-!
# Requests for several items, and changes of access

* `accounts_acquireMany`: a request for several items ends with one guard for each
  of them, or with the guards there were before;
* `accounts_escalate`, `accounts_relax`: a guard that changes its access takes the
  place of the old one.
-/

namespace Arcbase.LockTable

open Guard

variable {t t' : LockTable} {G taken new : List Guard} {g : Guard}

/-! ## Settings -/

/-- The settings of a table, which no guard changes. -/
structure SameSettings (t t' : LockTable) : Prop where
  limit : t'.limit = t.limit
  readonly : t'.readonly = t.readonly

theorem SameSettings.refl (t : LockTable) : t.SameSettings t := ⟨rfl, rfl⟩

theorem SameSettings.trans {t'' : LockTable} (h : t.SameSettings t') (h' : t'.SameSettings t'') :
    t.SameSettings t'' := ⟨h'.limit.trans h.limit, h'.readonly.trans h.readonly⟩

theorem sameSettings_acquire {me : Thread} {item : LockItem} {mode : LockMode}
    (ha : t.acquire me item mode = .ok (g, t')) : t.SameSettings t' := by
  obtain ⟨_, _, r, hr, _⟩ := acquire_ok ha
  exact ⟨hr.limit, hr.readonly⟩

theorem sameSettings_release (t : LockTable) (g : Guard) : t.SameSettings (t.release g) := by
  obtain ⟨r, hr, _⟩ := release_rewrites t g
  exact ⟨hr.limit, hr.readonly⟩

theorem sameSettings_releaseAll (t : LockTable) (taken : List Guard) :
    t.SameSettings (t.releaseAll taken) := by
  induction taken generalizing t with
  | nil => exact .refl _
  | cons g rest ih => exact (sameSettings_release t g).trans (ih (t.release g))

/-- Whether access is given depends only on the guards on the item. -/
theorem acquire_congr (me : Thread) (mode : LockMode) (item : LockItem) {item' : LockItem}
    {G' : List Guard} (h : t.Accounts G) (h' : t'.Accounts G') (hs : t.SameSettings t')
    (hslot : item'.slot = item.slot) (hG : onSlot item.slot G' = onSlot item.slot G) :
    (t'.acquire me item' mode).isOk = (t.acquire me item mode).isOk := by
  have hok : ∀ x : Except AccessError (Guard × LockTable), x.isOk = true ↔ ∃ p, x = .ok p := by
    intro x
    cases x <;> simp [Except.isOk, Except.toBool]
  rw [Bool.eq_iff_iff, hok, hok]
  cases mode with
  | none => exact iff_of_false (fun ⟨_, hp⟩ => nomatch hp) fun ⟨_, hp⟩ => nomatch hp
  | readonly => rw [acquire_readonly_iff h, acquire_readonly_iff h', hslot, hG, hs.limit]
  | writable =>
    have hopen : Open G' me item.slot ↔ Open G me item.slot := by
      simp only [Open, ← and_imp, ← mem_onSlot, hG]
    rw [acquire_writable_iff h, acquire_writable_iff h', hslot, hopen, hG, hs.limit, hs.readonly]

/-! ## Several items -/

theorem accounts_releaseAll (h : t.Accounts (taken ++ G)) : (t.releaseAll taken).Accounts G := by
  induction taken generalizing t with
  | nil => exact h
  | cons g rest ih => exact ih (accounts_release h)

/-- What a request for items has given, one guard for each. -/
structure Granted (me : Thread) (mode : LockMode) (items : List LockItem) (new : List Guard)
    (G : List Guard) : Prop where
  items : new.map Guard.item = items
  thread : ∀ g ∈ new, g.thread = me
  alone : mode = .writable → ∀ g ∈ new, g.hold = .writer ∧ Open G me g.item.slot

theorem sameSettings_acquireInOrder (me : Thread) (mode : LockMode) (items : List LockItem)
    (taken : List Guard) (t : LockTable) :
    t.SameSettings (acquireInOrder me mode items taken t).2 := by
  induction items generalizing taken t with
  | nil => exact .refl t
  | cons item rest ih =>
    unfold acquireInOrder
    cases ha : t.acquire me item mode with
    | error e => exact sameSettings_releaseAll t taken
    | ok p => exact (sameSettings_acquire ha).trans (ih _ p.2)

theorem sameSettings_acquireMany (me : Thread) (mode : LockMode) (items : List LockItem)
    (t : LockTable) : t.SameSettings (t.acquireMany me items mode).2 := by
  unfold acquireMany
  dsimp only
  split
  · exact .refl t
  · exact sameSettings_acquireInOrder ..

/-- The run of a request: every guard taken is accounted for, and a refusal gives
all of them back. -/
theorem acquireInOrder_spec (taken : List Guard) {me : Thread} {mode : LockMode}
    {items : List LockItem}
    {r : Except AccessError (List Guard)} (h : t.Accounts (taken ++ G))
    (hrun : acquireInOrder me mode items taken t = (r, t')) :
    t.SameSettings t' ∧ match r with
      | .ok all => ∃ new, all = taken ++ new ∧ Granted me mode items new G ∧ t'.Accounts (all ++ G)
      | .error _ => t'.Accounts G := by
  have hset : t.SameSettings (acquireInOrder me mode items taken t).2 :=
    sameSettings_acquireInOrder ..
  refine ⟨by rwa [hrun] at hset, ?_⟩
  clear hset
  induction items generalizing t taken with
  | nil =>
    cases hrun
    refine ⟨[], (List.append_nil taken).symm, ⟨rfl, ?_, ?_⟩, h⟩
    · exact fun g hg => absurd hg List.not_mem_nil
    · exact fun _ g hg => absurd hg List.not_mem_nil
  | cons item rest ih =>
    unfold acquireInOrder at hrun
    cases ha : t.acquire me item mode with
    | error e =>
      rw [ha] at hrun
      cases hrun
      exact accounts_releaseAll h
    | ok p =>
      obtain ⟨g, t₁⟩ := p
      rw [ha] at hrun
      obtain ⟨hme, hitem, _⟩ := acquire_ok ha
      have hperm : (g :: (taken ++ G)).Perm ((taken ++ [g]) ++ G) := by
        rw [List.append_assoc]
        exact List.perm_middle.symm
      have hrest := ih (taken ++ [g]) ((accounts_acquire h ha).perm hperm) hrun
      cases r with
      | error e => exact hrest
      | ok all =>
        obtain ⟨new, hall, hgranted, hacc⟩ := hrest
        refine ⟨g :: new, by rw [hall, List.append_assoc]; rfl, ⟨?_, ?_, ?_⟩, hacc⟩
        · rw [List.map_cons, hitem, hgranted.items]
        · intro g' hg'
          rcases List.mem_cons.1 hg' with rfl | hm
          · exact hme
          · exact hgranted.thread g' hm
        · intro hmode g' hg'
          rcases List.mem_cons.1 hg' with rfl | hm
          · subst hmode
            obtain ⟨hhold, hopen⟩ := open_of_acquire h ha
            rw [hitem]
            exact ⟨hhold, hopen.mono fun x hx => List.mem_append_right taken hx⟩
          · exact hgranted.alone hmode g' hm

/-- In ascending order, equal ordinals would be neighbors. -/
theorem nodup_of_duplicate? {items : List LockItem} (h : duplicate? items = none)
    (hs : items.Pairwise fun a b => a.ordinal ≤ b.ordinal) :
    (items.map LockItem.ordinal).Nodup := by
  induction items with
  | nil => exact List.nodup_nil
  | cons a rest ih =>
    cases rest with
    | nil => exact List.nodup_singleton _
    | cons b rest =>
      simp only [duplicate?] at h
      split at h
      · cases h
      next hne =>
        obtain ⟨hle, hrest⟩ := List.pairwise_cons.1 hs
        refine List.nodup_cons.2 ⟨?_, ih h hrest⟩
        intro hm
        obtain ⟨c, hc, he⟩ := List.mem_map.1 hm
        have hab := hle b List.mem_cons_self
        have hbc : b.ordinal ≤ c.ordinal := by
          rcases List.mem_cons.1 hc with rfl | hc
          · exact Nat.le_refl _
          · exact (List.pairwise_cons.1 hrest).1 c hc
        omega

/-- A request takes its items in ascending order. -/
theorem pairwise_ordinal (items : List LockItem) :
    (items.mergeSort fun a b => a.ordinal ≤ b.ordinal).Pairwise
      fun a b => a.ordinal ≤ b.ordinal := by
  have hle : (items.mergeSort fun a b => a.ordinal ≤ b.ordinal).Pairwise
      fun a b => decide (a.ordinal ≤ b.ordinal) = true := List.pairwise_mergeSort
    (fun a b c hab hbc => by simp only [decide_eq_true_eq] at *; omega)
    (fun a b => by simp only [Bool.or_eq_true, decide_eq_true_eq]; omega) items
  exact hle.imp fun hab => of_decide_eq_true hab

theorem acquireMany_spec {me : Thread} {mode : LockMode} {items : List LockItem}
    {r : Except Error (List Guard)} (h : t.Accounts G)
    (hrun : t.acquireMany me items mode = (r, t')) :
    t.SameSettings t' ∧ match r with
      | .ok new => ∃ sorted, items.Perm sorted ∧ (sorted.map LockItem.ordinal).Nodup ∧
          Granted me mode sorted new G ∧ t'.Accounts (new ++ G)
      | .error _ => t'.Accounts G := by
  simp only [acquireMany] at hrun
  have hsorted := pairwise_ordinal items
  split at hrun
  next =>
    cases hrun
    exact ⟨.refl t, h⟩
  next hdup =>
    cases hin : acquireInOrder me mode (items.mergeSort fun a b => a.ordinal ≤ b.ordinal) [] t with
    | mk r' t₁ =>
      rw [hin] at hrun
      cases hrun
      obtain ⟨hset, hrest⟩ := acquireInOrder_spec [] h hin
      refine ⟨hset, ?_⟩
      cases r' with
      | error e => exact hrest
      | ok all =>
        obtain ⟨new, rfl, hgranted, hacc⟩ := hrest
        exact ⟨_, (List.mergeSort_perm items _).symm, nodup_of_duplicate? hdup hsorted, hgranted,
          hacc⟩

theorem duplicate?_of_nodup {items : List LockItem} (h : (items.map LockItem.ordinal).Nodup) :
    duplicate? items = none := by
  induction items with
  | nil => rfl
  | cons a rest ih =>
    obtain ⟨hne, hrest⟩ := List.nodup_cons.1 h
    cases rest with
    | nil => rfl
    | cons b rest =>
      have hother : a.ordinal ≠ b.ordinal := fun e => hne (e ▸ List.mem_cons_self)
      rw [duplicate?, if_neg hother]
      exact ih hrest

/-- Items that can be had one by one can be had together. -/
theorem acquireInOrder_isOk {me : Thread} {mode : LockMode} {items : List LockItem}
    (h : t.Accounts G) (hslots : (items.map LockItem.slot).Nodup)
    (hok : ∀ item ∈ items, (t.acquire me item mode).isOk = true) (taken : List Guard) :
    ∃ all t', acquireInOrder me mode items taken t = (.ok all, t') := by
  induction items generalizing t G taken with
  | nil => exact ⟨taken, t, rfl⟩
  | cons item rest ih =>
    obtain ⟨hfirst, hrest⟩ := List.nodup_cons.1 hslots
    cases ha : t.acquire me item mode with
    | error e =>
      have hfirst := hok item List.mem_cons_self
      rw [ha] at hfirst
      cases hfirst
    | ok p =>
      obtain ⟨g, t₁⟩ := p
      have hslot : g.item.slot = item.slot := congrArg LockItem.slot (acquire_ok ha).2.1
      have h₁ := accounts_acquire h ha
      have hothers : ∀ other ∈ rest, (t₁.acquire me other mode).isOk = true := by
        intro other hm
        have hne : g.item.slot ≠ other.slot := fun e =>
          hfirst (hslot.symm.trans e ▸ List.mem_map_of_mem hm)
        have hguards : onSlot other.slot (g :: G) = onSlot other.slot G := by
          rw [onSlot_cons, if_neg hne]
        rw [acquire_congr me mode other h h₁ (sameSettings_acquire ha) rfl hguards]
        exact hok other (List.mem_cons_of_mem item hm)
      obtain ⟨all, t', hrun⟩ := ih h₁ hrest hothers (taken ++ [g])
      exact ⟨all, t', by rw [acquireInOrder, ha]; exact hrun⟩

theorem acquireMany_isOk {me : Thread} {mode : LockMode} {items : List LockItem}
    (h : t.Accounts G) (hslots : (items.map LockItem.slot).Nodup)
    (hordinals : (items.map LockItem.ordinal).Nodup)
    (hok : ∀ item ∈ items, (t.acquire me item mode).isOk = true) :
    ∃ new t', t.acquireMany me items mode = (.ok new, t') := by
  have hperm := List.mergeSort_perm items fun a b => a.ordinal ≤ b.ordinal
  obtain ⟨all, t', hrun⟩ := acquireInOrder_isOk h ((hperm.map _).nodup_iff.2 hslots)
    (fun item hm => hok item (hperm.mem_iff.1 hm)) []
  refine ⟨all, t', ?_⟩
  rw [acquireMany, duplicate?_of_nodup ((hperm.map _).nodup_iff.2 hordinals), hrun]
  rfl

/-- Items with different ordinals have different records. -/
theorem nodup_slots {items : List LockItem} (hnodup : (items.map LockItem.ordinal).Nodup)
    (hslots : ∀ a ∈ items, ∀ b ∈ items, a.slot = b.slot → a.ordinal = b.ordinal) :
    (items.map LockItem.slot).Nodup := by
  rw [List.Nodup, List.pairwise_map] at hnodup ⊢
  exact hnodup.imp_of_mem fun ha hb hne e => hne (hslots _ ha _ hb e)

/-- A request for items that can be had one by one is refused only for naming one twice. -/
theorem acquireMany_of_isOk {me : Thread} {mode : LockMode} {items : List LockItem}
    {r : Except Error (List Guard)} (h : t.Accounts G)
    (hordered : ∀ a ∈ items, ∀ b ∈ items, a.slot = b.slot → a.ordinal = b.ordinal)
    (hok : ∀ item ∈ items, (t.acquire me item mode).isOk = true)
    (hrun : t.acquireMany me items mode = (r, t')) :
    (∃ new, r = .ok new) ∨ ∃ label, r = .error (.vertex (.duplicateInRequest label)) := by
  have hperm := List.mergeSort_perm items fun a b => a.ordinal ≤ b.ordinal
  cases hdup : duplicate? (items.mergeSort fun a b => a.ordinal ≤ b.ordinal) with
  | some item =>
    rw [acquireMany, hdup] at hrun
    exact .inr ⟨item.label, (Prod.mk.inj hrun).1.symm⟩
  | none =>
    have hordinals := (hperm.map LockItem.ordinal).nodup_iff.1
      (nodup_of_duplicate? hdup (pairwise_ordinal items))
    obtain ⟨new, t₁, hall⟩ := acquireMany_isOk h (nodup_slots hordinals hordered) hordinals hok
    rw [hall] at hrun
    exact .inl ⟨new, (Prod.mk.inj hrun).1.symm⟩

/-- A request is refused if its thread is at the limit for one of the items. -/
theorem acquireMany_of_full {me : Thread} {items : List LockItem} (h : t.Accounts G)
    (hordinals : (items.map LockItem.ordinal).Nodup) {item : LockItem} (hm : item ∈ items)
    (hfull : t.limit ≤ (onSlot item.slot G).length) :
    ∃ cause t', t.acquireMany me items .writable = (.error (.access cause), t') := by
  cases hrun : t.acquireMany me items .writable with
  | mk r t' =>
    obtain ⟨hset, hspec⟩ := acquireMany_spec h hrun
    cases r with
    | ok new =>
      obtain ⟨sorted, hperm, _, hgranted, hacc⟩ := hspec
      obtain ⟨g, hg, rfl⟩ := List.mem_map.1 (hgranted.items.symm ▸ hperm.mem_iff.1 hm)
      have hbound := length_le_of_writer hacc (List.mem_append_left G hg)
        (hgranted.alone rfl g hg).1
      have hmine : 0 < (onSlot g.item.slot new).length :=
        List.length_pos_of_mem (mem_onSlot.2 ⟨hg, rfl⟩)
      rw [onSlot, List.filter_append, List.length_append, hset.limit] at hbound
      simp only [onSlot] at hfull hmine
      omega
    | error e =>
      have hperm := List.mergeSort_perm items fun a b => a.ordinal ≤ b.ordinal
      rw [acquireMany, duplicate?_of_nodup ((hperm.map _).nodup_iff.2 hordinals)] at hrun
      dsimp only at hrun
      generalize acquireInOrder me .writable _ [] t = result at hrun
      obtain ⟨r, t₁⟩ := result
      cases r with
      | ok all => cases hrun
      | error cause =>
        cases hrun
        exact ⟨cause, _, rfl⟩

/-! ## Changes of access -/

theorem accounts_escalate {g' : Guard} (h : t.Accounts (g :: G))
    (he : t.escalate g = .ok (g', t')) :
    t.SameSettings t' ∧ t'.Accounts (g' :: G) ∧ g' = { g with hold := .writer } := by
  cases hg : g.hold with
  | writer =>
    simp only [escalate, hg] at he
    cases he
    refine ⟨.refl t, h, ?_⟩
    rw [← hg]
  | reader =>
    simp only [escalate, hg, enterWriter, bind, Except.bind, pure, Except.pure, throw, throwThe,
      MonadExceptOf.throw] at he
    by_cases hs : (t.record g.item.slot).isSoleReader g.thread = true
    · by_cases hro : t.readonly = true
      · simp [hs, hro] at he
      · simp only [hs, hro, if_true, if_false, Bool.false_eq_true] at he
        have hopen : t.readonly = false := by simpa using hro
        have hrec := h.record g.item.slot
        rw [onSlot_cons, if_pos rfl] at hrec
        have hnone := LockRecord.Accounts.of_isSoleReader hrec hs
        have hr : t.Rewrites g.item.slot
            ({ t.record g.item.slot with readers := AssocMap.empty }.writtenBy g.thread) t' := by
          cases he
          exact ⟨t.writers + 1, by simp [setRecord, hopen]⟩
        obtain rfl : g' = { g with hold := .writer } := by
          cases he
          rfl
        refine ⟨⟨hr.limit, hr.readonly⟩, h.rewrite hr ?_ ?_, rfl⟩
        · rw [onSlot_cons, if_pos rfl, hnone]
          exact LockRecord.accounts_writtenBy (g := { g with hold := .writer }) h.limit_pos rfl
        · intro slot' hne
          rw [onSlot_cons, onSlot_cons, if_neg hne, if_neg hne]
    · simp [hs] at he

theorem accounts_relax {r : Option Guard} (h : t.Accounts (g :: G)) (hr : t.relax g = (r, t')) :
    t.SameSettings t' ∧ t'.Accounts (r.toList ++ G) ∧
      ∀ g' ∈ r, g' = { g with hold := .reader } := by
  cases hg : g.hold with
  | reader =>
    simp only [relax, hg] at hr
    cases hr
    refine ⟨.refl t, h, ?_⟩
    rintro g' ⟨⟩
    rw [← hg]
  | writer =>
    simp only [relax, hg] at hr
    split at hr
    next =>
      cases hr
      exact ⟨sameSettings_release t g, accounts_release h, by simp⟩
    next hlast =>
      cases hr
      have hrec := h.record g.item.slot
      rw [onSlot_cons, if_pos rfl] at hrec
      have hone : onSlot g.item.slot G = [] ∧
          (t.record g.item.slot).downgrade g.thread =
            { mode := .readonly, readers := AssocMap.empty.insert g.thread 1 } := by
        generalize t.record g.item.slot = rec at hrec hlast
        cases hrec with
        | readonly _ reading =>
          have hclash := hg.symm.trans (reading g List.mem_cons_self)
          cases hclash
        | writable _ _ bound =>
          refine ⟨List.length_eq_zero_iff.1 ?_, rfl⟩
          simpa using hlast
      have hrw : t.Rewrites g.item.slot
          { mode := .readonly, readers := AssocMap.empty.insert g.thread 1 }
          ((t.setRecord g.item.slot ((t.record g.item.slot).downgrade g.thread)).leaveWriter) := by
        rw [hone.2]
        exact ⟨t.writers - 1, rfl⟩
      refine ⟨⟨hrw.limit, hrw.readonly⟩, h.rewrite hrw ?_ ?_, by simp⟩
      · rw [Option.toList_some, List.singleton_append, onSlot_cons, if_pos rfl, hone.1]
        exact LockRecord.accounts_downgrade (g := { g with hold := .reader }) h.limit_pos rfl
      · intro slot' hne
        rw [Option.toList_some, List.singleton_append, onSlot_cons, onSlot_cons, if_neg hne,
          if_neg hne]

end Arcbase.LockTable
