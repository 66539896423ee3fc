import Arcbase.Proofs.Action.Quiet
set_option autoImplicit false

/-!
# Holding cells

Whoever is given writable access to a cell may write it: no guard of anyone else is on
it then.  So if the cells that a thread has to itself are among those an action may
write (`Covers`), the action may hold cells and write them meanwhile, and is orderly
all the same (`orderly_holding`, `orderly_holdingMany`).
-/

namespace Arcbase.Action

open Store

variable {α β : Type} {agree : Agreement} {W : CellId → Prop} {G H L new : List Guard}
  {P : Store → Prop} {who : Caller}

/-- The cells that a thread has to itself are among those it may write. -/
def Covers (W : CellId → Prop) (u : Thread) (G : List Guard) : Prop :=
  ∀ c, Guard.Open G u c → W c

theorem Covers.append {u : Thread} (h : Covers W u G) (new : List Guard) :
    Covers W u (new ++ G) :=
  fun c hc => h c (hc.mono fun _ hg => List.mem_append_right new hg)

theorem Covers.cons {u : Thread} (h : Covers W u G) (g : Guard) : Covers W u (g :: G) :=
  h.append [g]

/-! ## Taking -/

/-- A guard that a caller has been given on a cell. -/
structure Given (W : CellId → Prop) (who : Caller) (mode : LockMode) (c : CellId) (g : Guard) :
    Prop where
  thread : g.thread = who.thread
  slot : g.item.slot = c
  writing : mode = .writable → g.hold = .writer
  owned : g.hold = .writer → W c

/-- A writer's guard is on a cell that its thread has to itself. -/
theorem owned_of_accounts {t : LockTable} {g : Guard} (hW : Covers W who.thread G)
    (ha : t.Accounts H) (hm : g ∈ H) (hsub : ∀ g ∈ G, g ∈ H)
    (hthread : g.thread = who.thread) (hg : g.hold = .writer) : W g.item.slot := by
  have hopen := LockTable.open_of_writer ha hm hg
  rw [hthread] at hopen
  exact hW _ (hopen.mono hsub)

theorem turns_acquire {c : CellId} {mode : LockMode} (hW : Covers W who.thread G)
    (hc : ∀ s, P s → c < s.cells.size) (hpre : FrameStable P) :
    Turns agree W G P (acquire who c mode) (fun g => g :: G) G
      fun g s => Given W who mode c g ∧ P s := by
  intro s r s' _ hg hp hrun
  simp only [acquire, run_ofFun] at hrun
  cases ha : s.locks.acquire who.thread (s.lockItem c) mode with
  | error e =>
    rw [ha] at hrun
    cases hrun
    exact ⟨.refl, hg⟩
  | ok p =>
    obtain ⟨g, t⟩ := p
    rw [ha] at hrun
    cases hrun
    obtain ⟨hthread, hitem, _⟩ := LockTable.acquire_ok ha
    have hslot : g.item.slot = c := congrArg LockItem.slot hitem
    have hacc := LockTable.accounts_acquire hg.accounts ha
    have hf : s.SameFrame { s with locks := t } := sameFrame_of_cells rfl rfl
    refine ⟨.single (.locks s t), hg.acquire (hc s hp) ha, ⟨hthread, hslot, ?_, ?_⟩,
      hpre _ _ hf hp⟩
    · rintro rfl
      exact (LockTable.open_of_acquire hg.accounts ha).1
    · intro hwriter
      exact hslot ▸ owned_of_accounts hW hacc List.mem_cons_self
        (fun _ hm => List.mem_cons_of_mem g hm) hthread hwriter

/-- The guards that a caller has been given on cells, one for each. -/
structure GivenAll (W : CellId → Prop) (who : Caller) (mode : LockMode) (cells : List CellId)
    (new : List Guard) : Prop where
  distinct : cells.Nodup
  slots : cells.Perm (new.map fun g => g.item.slot)
  each : ∀ g ∈ new, Given W who mode g.item.slot g

theorem GivenAll.owned {cells : List CellId} (h : GivenAll W who .writable cells new) {c : CellId}
    (hc : c ∈ cells) : W c := by
  obtain ⟨g, hg, rfl⟩ := List.mem_map.1 (h.slots.mem_iff.1 hc)
  exact (h.each g hg).owned ((h.each g hg).writing rfl)

theorem turns_acquireMany {cells : List CellId} {mode : LockMode} (hW : Covers W who.thread G)
    (hc : ∀ s, P s → ∀ c ∈ cells, c < s.cells.size) (hpre : FrameStable P) :
    Turns agree W G P (acquireMany who cells mode) (fun new => new ++ G) G
      fun new s => GivenAll W who mode cells new ∧ P s := by
  intro s r s' _ hg hp hrun
  simp only [acquireMany, run_ofFun] at hrun
  cases ha : s.locks.acquireMany who.thread (cells.map s.lockItem) mode with
  | mk r₁ t =>
    rw [ha] at hrun
    cases hrun
    obtain ⟨_, hspec⟩ := LockTable.acquireMany_spec hg.accounts ha
    have hf : s.SameFrame { s with locks := t } := sameFrame_of_cells rfl rfl
    refine ⟨.single (.locks s t), ?_⟩
    cases r₁ with
    | error e => exact hg.transfer hf.extends hspec fun _ hm => hm
    | ok new =>
      obtain ⟨sorted, hperm, hdistinct, hgranted, hacc⟩ := hspec
      have hcells : (cells.map s.lockItem).Nodup :=
        hperm.nodup_iff.2 (List.Nodup.of_map _ hdistinct)
      rw [← hgranted.items] at hperm
      have hitem : ∀ g ∈ new, ∃ c ∈ cells, g.item = s.lockItem c := by
        intro g hm
        obtain ⟨c, hcm, he⟩ := List.mem_map.1 (hperm.mem_iff.2 (List.mem_map_of_mem hm))
        exact ⟨c, hcm, he.symm⟩
      refine ⟨⟨hacc, ?_⟩, ⟨List.Nodup.of_map _ hcells, ?_, ?_⟩, hpre _ _ hf hp⟩
      · intro g hm
        rcases List.mem_append.1 hm with hm | hm
        · obtain ⟨c, hcm, he⟩ := hitem g hm
          rw [he]
          exact ⟨hc s hp c hcm, rfl⟩
        · exact hg.item g hm
      · have hslots := hperm.map LockItem.slot
        have hcells : cells.map (LockItem.slot ∘ s.lockItem) = cells := List.map_id cells
        rw [List.map_map, List.map_map, hcells] at hslots
        exact hslots
      · intro g hm
        have hthread := hgranted.thread g hm
        refine ⟨hthread, rfl, fun hmode => (hgranted.alone hmode g hm).1, fun hwriter => ?_⟩
        exact owned_of_accounts hW hacc (List.mem_append_left G hm)
          (fun _ hm => List.mem_append_right new hm) hthread hwriter

/-! ## Giving up -/

/-- Guards that are given up whether the action succeeds or fails. -/
theorem turns_ensuring (new : List Guard) {a : Action α} {Q : α → Store → Prop}
    (hW : ∀ g ∈ new, g.hold = .writer → W g.item.slot)
    (h : Orderly agree W (new ++ G) P a Q) :
    Turns agree W (new ++ G) P (ensuring a fun s => s.dropAll new) (fun _ => G) G
      fun _ _ => True := by
  intro s r s' hs hg hp hrun
  cases hrun₁ : a.run s with
  | mk r₁ s₁ =>
    simp only [ensuring, run_ofFun, hrun₁] at hrun
    cases hrun
    obtain ⟨st, hr⟩ := h s _ _ hs hg hp hrun₁
    have hg₁ : s₁.Guarded (new ++ G) := by
      cases r with
      | error e => exact hr
      | ok x => exact hr.1
    obtain ⟨st', hg'⟩ := dropAll_spec hg₁ hW
    refine ⟨st.trans st', ?_⟩
    cases r with
    | error e => exact hg'
    | ok x => exact ⟨hg', trivial⟩

theorem orderly_holding {c : CellId} {mode : LockMode} {body : Action α}
    {Q : α → Store → Prop} (hW : Covers W who.thread G)
    (hc : ∀ s, P s → c < s.cells.size) (hpre : FrameStable P)
    (hbody : ∀ g, Given W who mode c g → Covers W who.thread (g :: G) →
      Orderly agree W (g :: G) P body Q) :
    Orderly agree W G P (holding who c mode body) fun _ _ => True := by
  refine .bind (turns_acquire hW hc hpre) fun g => ?_
  refine .intro (fun _ hp => hp.1) fun hgiven => ?_
  refine turns_ensuring [g] ?_
    ((hbody g hgiven (hW.cons g)).weaken (fun _ hp => hp.2) fun _ _ h => h)
  intro g' hm
  rw [List.mem_singleton.1 hm, hgiven.slot]
  exact hgiven.owned

theorem orderly_holdingMany {cells : List CellId} {mode : LockMode} {body : Action α}
    {Q : α → Store → Prop} (hW : Covers W who.thread G)
    (hc : ∀ s, P s → ∀ c ∈ cells, c < s.cells.size) (hpre : FrameStable P)
    (hbody : ∀ new, GivenAll W who mode cells new → Covers W who.thread (new ++ G) →
      Orderly agree W (new ++ G) P body Q) :
    Orderly agree W G P (holdingMany who cells mode body) fun _ _ => True := by
  refine .bind (turns_acquireMany hW hc hpre) fun new => ?_
  refine .intro (fun _ hp => hp.1) fun hgiven => ?_
  exact turns_ensuring new (fun g hm => (hgiven.each g hm).owned)
    ((hbody new hgiven (hW.append new)).weaken (fun _ hp => hp.2) fun _ _ h => h)

/-! ## Finding and adding -/

theorem orderly_lookup (cs : List CellId) {id : String} :
    Orderly agree W G (AllLive cs) (read (·.lookup id)) fun found =>
      AllLive (found.toList ++ cs) := (quiet_lookup cs).orderly

theorem orderly_find (cs : List CellId) {id : String} :
    Orderly agree W G (AllLive cs) (find id) fun c => AllLive (c :: cs) := (quiet_find cs).orderly

theorem bare_new (manifestation : Manifestation) (now : UInt32) :
    Bare (VertexData.new manifestation now) := ⟨rfl, rfl, rfl⟩

theorem orderly_findOrAdd (cs : List CellId) {id : String} {manifestation : Manifestation} :
    Orderly agree W G (AllLive cs) (findOrAdd who id manifestation) fun found =>
      AllLive (found.1 :: cs) := by
  refine .bind orderly_read_any fun fault => ?_
  refine .bind orderly_refuse fun _ => ?_
  refine .bind (M := fun found s => AllLive cs s ∧ s.lookupKey (.of id) = found)
    (orderly_read fun s _ hl => ⟨hl, rfl⟩) fun found => ?_
  cases found with
  | some c =>
    refine .bind (orderly_read (Q := fun _ => AllLive (c :: cs)) fun s hs hl => ?_)
      fun present => ?_
    · exact allLive_cons.2 ⟨hs.placed.live_of_lookup hl.2, hl.1⟩
    · split
      · exact orderly_pure fun _ hl => hl
      · exact turns_fail
  | none =>
    refine .bind (M := fun c s => (AllLive cs s ∧ s.lookupKey (.of id) = none) ∧ s.cells.size = c)
      (orderly_read fun s _ hl => ⟨hl, rfl⟩) fun c => ?_
    refine .bind (turns_update (Q := fun _ => AllLive (c :: cs)) fun s hs hl => ?_)
      fun _ => orderly_pure fun _ hl => hl
    obtain ⟨⟨hl, hfresh⟩, rfl⟩ := hl
    have hlive : ∀ c, (s.addCell { id, key := .of id, data := .new manifestation who.now }).Live c ↔
        c = s.cells.size ∨ s.Live c := fun _ => live_addCell_iff rfl
    refine ⟨.single (.add hfresh rfl rfl (bare_new manifestation who.now)), rfl, ?_⟩
    exact allLive_cons.2 ⟨(hlive _).2 (.inl rfl), fun c hc => (hlive c).2 (.inr (hl c hc))⟩

end Arcbase.Action
