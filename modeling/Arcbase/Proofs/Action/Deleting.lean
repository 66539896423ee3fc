import Arcbase.Proofs.Action.Removing
import Arcbase.Proofs.Store.Stamped
set_option autoImplicit false

/-!
# How deletions and disconnects go

A deletion and a disconnect each go in one of a few ways, told here with everything that
happens on the way (`DeleteRun`, `DisconnectRun`).  Both may be refused, or meet a vertex
that is not there; else they hold the vertex, walk around it, and give it up again.
-/

namespace Arcbase.Action

open Store

variable {agree : Agreement} {G : List Guard} {who : Caller} {id anchor : String} {probe : Probe}
  {neighbor : Option String} {s s' : Store}

/-- Nobody but the thread's own request keeps a vertex from being written: the graph is
readonly, or the vertex cannot be held. -/
def Refuses (who : Caller) (id : String) (s : Store) (cause : AccessError) : Prop :=
  s.locks.readonly = true ∧ cause = .readonlyGraph ∨
    ∃ c, s.lookup id = some c ∧ s.locks.acquire who.thread (s.lockItem c) .writable = .error cause

/-- A vertex that has been found and is held. -/
structure HeldRun (who : Caller) (id : String) (s : Store) (c : CellId) (g : Guard)
    (locks : LockTable) : Prop where
  writable : s.locks.readonly = false
  found : s.lookup id = some c
  acquired : s.locks.acquire who.thread (s.lockItem c) .writable = .ok (g, locks)

/-- What a walk around a vertex does to a store. -/
structure Walked (who : Caller) (G : List Guard) (c : CellId) (filter : ArcFilter)
    (direction : Direction) (toward : Option VertexKey) (rm : Removal) (s s' : Store) : Prop where
  run : SeverRun who G c (s.groups c filter direction toward) rm s s'
  readings : ∀ {β : Type} {f : VertexData → β}, Slotless f → SameReading f s s'
  stamps : ∀ T L : CellId → Prop, (toward.all (· == s.keyOf c) = true → L c) →
    Stamped who.now T L s s'

/-- A walk changes nothing that tells when something expires. -/
theorem Walked.dates {c : CellId} {filter : ArcFilter} {direction : Direction}
    {toward : Option VertexKey} {rm : Removal}
    (h : Walked who G c filter direction toward rm s s') : s.SameDates s' :=
  (h.readings slotless_expires).sameDates

theorem run_walk {c : CellId} {filter : ArcFilter} {direction : Direction}
    {toward : Option VertexKey} {r : Except Error Nat} (hs : s.Sound agree) (hg : s.Guarded G)
    (hc : s.Live c) (hrun : (sever who c filter direction toward).run s = (r, s')) :
    ∃ rm s₁, r = rm.result ∧ s' = s₁.less rm.removed ∧
      Walked who G c filter direction toward rm s s₁ := by
  obtain ⟨rm, s₁, hr, hs', hsever⟩ := run_sever hs hg hc hrun
  have hreadings : ∀ {β : Type} {f : VertexData → β}, Slotless f → SameReading f s s' := by
    intro β f hf
    rw [sever, run_ofFun] at hrun
    obtain ⟨_, rfl⟩ := Prod.mk.inj hrun
    exact (sameReading_severGroups hf ..).trans (sameReading_of_cells rfl rfl rfl)
  have hstamps : ∀ T L : CellId → Prop, (toward.all (· == s.keyOf c) = true → L c) →
      Stamped who.now T L s s' := by
    intro T L hL
    rw [sever, run_ofFun] at hrun
    obtain ⟨_, rfl⟩ := Prod.mk.inj hrun
    have hs₀ : (s.less 0).Sound agree := hs
    refine (stamped_severGroups (r := {}) hs₀ hg hc fun group hm hself => hL ?_).trans
      (stamped_of_cells rfl)
    obtain ⟨⟨seen, hseen, hkey⟩, _⟩ := mem_groups_iff.1 hm
    exact hself ▸ hkey ▸ (mem_aimedAt_iff.1 hseen).2.2
  rw [hs'] at hstamps
  have hkept : ∀ {β : Type} {f : VertexData → β}, Slotless f → SameReading f s s₁ := fun hf =>
    (hs' ▸ hreadings hf : SameReading _ s (s₁.less rm.removed)).trans
      (sameReading_of_cells rfl rfl rfl)
  exact ⟨rm, s₁, hr, hs', hsever, hkept, fun T L hL => (hstamps T L hL).trans (stamped_of_cells rfl)⟩

/-! ## Deleting -/

/-- The vertex to be deleted as it is when the walk around it begins. -/
def stripped (who : Caller) (c : CellId) (s : Store) (locks : LockTable) : Store :=
  ({ s with locks } : Store).modifyData c (·.strip who.now)

/-- What is made of a vertex whose arcs could not all be taken off. -/
def leftOver (who : Caller) (id : String) (c : CellId) (s : Store) : Store :=
  (s.modifyData c fun d => { d with expires := some who.now }).scheduleAt (.vertex id) who.now

/-- What is made of a vertex without arcs of its own. -/
def takenOut (c : CellId) (s : Store) : Store :=
  if 0 < (s.data c).forwardOnlyIn then
    s.modifyData c fun d => { d with manifestation := .virtual, expires := none }
  else s.remove c

/-- The ways in which a deletion may go. -/
inductive DeleteRun (who : Caller) (id : String) (G : List Guard) (s : Store) :
    Except Error Nat → Store → Prop where
  | refused {cause : AccessError} (refuses : Refuses who id s cause) :
      DeleteRun who id G s (.error (.access cause)) s
  | missing (absent : s.lookup id = none) : DeleteRun who id G s (.ok 0) s
  | incomplete {c : CellId} {g : Guard} {locks : LockTable} {rm : Removal} {s₁ : Store}
      {cause : AccessError} (held : HeldRun who id s c g locks)
      (walk : Walked who (g :: G) c .all .any none rm (stripped who c s locks) s₁)
      (blocked : rm.cause = some cause) :
      DeleteRun who id G s (.error (.arc (.incomplete rm.removed rm.remaining cause)))
        ((leftOver who id c (s₁.less rm.removed)).drop g)
  | complete {c : CellId} {g : Guard} {locks : LockTable} {rm : Removal} {s₁ : Store}
      (held : HeldRun who id s c g locks)
      (walk : Walked who (g :: G) c .all .any none rm (stripped who c s locks) s₁)
      (free : rm.cause = none) :
      DeleteRun who id G s (.ok 1) ((takenOut c (s₁.less rm.removed)).drop g)

theorem HeldRun.live {c : CellId} {g : Guard} {locks : LockTable}
    (h : HeldRun who id s c g locks) (hs : s.Sound agree) : s.Live c ∧ (s.cell c).id = id :=
  hs.placed.of_lookup h.found

theorem HeldRun.writer {c : CellId} {g : Guard} {locks : LockTable}
    (h : HeldRun who id s c g locks) (hg : s.Guarded G) : g.hold = .writer :=
  (LockTable.open_of_acquire hg.accounts h.acquired).1

theorem HeldRun.slot {c : CellId} {g : Guard} {locks : LockTable}
    (h : HeldRun who id s c g locks) : g.item.slot = c :=
  congrArg LockItem.slot (LockTable.acquire_ok h.acquired).2.1

/-- The store in which the vertex is held is in order. -/
theorem HeldRun.sound {c : CellId} {g : Guard} {locks : LockTable}
    (h : HeldRun who id s c g locks) (hs : s.Sound agree) (hg : s.Guarded G) :
    Sound agree { s with locks } ∧ Guarded { s with locks } (g :: G) :=
  ⟨hs.withLocks locks, hg.acquire (h.live hs).1.1 h.acquired⟩

theorem sound_stripped {c : CellId} {g : Guard} {locks : LockTable}
    (h : HeldRun who id s c g locks) (hs : s.Sound agree) (hg : s.Guarded G) :
    (stripped who c s locks).Sound agree ∧ (stripped who c s locks).Guarded (g :: G) ∧
      (stripped who c s locks).Live c := by
  obtain ⟨hs₁, hg₁⟩ := h.sound hs hg
  have hframe : Store.SameFrame { s with locks } (stripped who c s locks) :=
    sameFrame_modifyData _ c fun _ => rfl
  refine ⟨?_, ?_, ?_⟩
  · exact (Step.attributes (W := fun _ => True) trivial (keepsArcs_strip who.now)).sound hs₁
  · exact hg₁.transfer hframe.extends hg₁.accounts fun _ hm => hm
  · exact hframe.live_iff.2 (h.live hs).1

theorem run_delete {r : Except Error Nat} (hs : s.Sound agree) (hg : s.Guarded G)
    (hrun : (delete who id).run s = (r, s')) : DeleteRun who id G s r s' := by
  rw [delete, run_bind, run_checkWritable] at hrun
  cases hreadonly : s.locks.readonly with
  | true =>
    rw [hreadonly, if_pos rfl] at hrun
    cases hrun
    exact .refused (.inl ⟨hreadonly, rfl⟩)
  | false =>
    rw [hreadonly, if_neg Bool.false_ne_true] at hrun
    simp only [run_bind, read, run_ofFun] at hrun
    cases hfound : s.lookup id with
    | none =>
      rw [hfound] at hrun
      cases hrun
      exact .missing hfound
    | some c =>
      rw [hfound] at hrun
      simp only [holding, run_bind, acquire, run_ofFun] at hrun
      cases hacq : s.locks.acquire who.thread (s.lockItem c) .writable with
      | error cause =>
        rw [hacq] at hrun
        cases hrun
        exact .refused (.inr ⟨c, hfound, hacq⟩)
      | ok p =>
        obtain ⟨g, locks⟩ := p
        have held : HeldRun who id s c g locks := ⟨hreadonly, hfound, hacq⟩
        obtain ⟨hs₁, hg₁, hc₁⟩ := sound_stripped held hs hg
        rw [hacq] at hrun
        cases hwalk : (sever who c .all .any none).run (stripped who c s locks) with
        | mk result s₂ =>
          obtain ⟨rm, s₁, rfl, rfl, walk⟩ := run_walk hs₁ hg₁ hc₁ hwalk
          rw [stripped] at hwalk
          simp only [ensuring, run_ofFun, run_bind, update, attempt, hwalk] at hrun
          cases hcause : rm.cause with
          | some cause =>
            simp only [Removal.result, hcause] at hrun
            cases hrun
            exact .incomplete held walk hcause
          | none =>
            simp only [Removal.result, hcause, run_bind, run_ofFun] at hrun
            have hend := DeleteRun.complete held walk hcause
            rw [takenOut] at hend
            split at hrun
            next hpos =>
              rw [if_pos hpos] at hend
              cases hrun
              exact hend
            next hzero =>
              rw [if_neg hzero] at hend
              cases hrun
              exact hend

/-! ## Disconnecting -/

/-- The ways in which a disconnect may go. -/
inductive DisconnectRun (who : Caller) (anchor : String) (probe : Probe)
    (neighbor : Option String) (G : List Guard) (s : Store) : Except Error Nat → Store → Prop where
  | refused {cause : AccessError} (refuses : Refuses who anchor s cause) :
      DisconnectRun who anchor probe neighbor G s (.error (.access cause)) s
  | unfit {e : Error} (fault : s.filterOf probe = .error e) :
      DisconnectRun who anchor probe neighbor G s (.error e) s
  | missing (absent : s.lookup anchor = none) :
      DisconnectRun who anchor probe neighbor G s (.error (.key (.missing anchor))) s
  | alone {c : CellId} {g : Guard} {locks : LockTable} {id : String}
      (held : HeldRun who anchor s c g locks) (wanted : neighbor = some id)
      (absent : s.lookup id = none) :
      DisconnectRun who anchor probe neighbor G s (.ok 0) (({ s with locks } : Store).drop g)
  | walked {c : CellId} {g : Guard} {locks : LockTable} {filter : ArcFilter} {n : Option CellId}
      {rm : Removal} {s₁ : Store} (held : HeldRun who anchor s c g locks)
      (probed : s.filterOf probe = .ok filter) (wanted : neighbor.mapM s.lookup = some n)
      (walk : Walked who (g :: G) c filter probe.direction (n.map s.keyOf) rm { s with locks } s₁) :
      DisconnectRun who anchor probe neighbor G s rm.result ((s₁.less rm.removed).drop g)

theorem run_disconnect {r : Except Error Nat} (hs : s.Sound agree) (hg : s.Guarded G)
    (hrun : (disconnect who anchor probe neighbor).run s = (r, s')) :
    DisconnectRun who anchor probe neighbor G s r s' := by
  rw [disconnect, run_bind, run_checkWritable] at hrun
  cases hreadonly : s.locks.readonly with
  | true =>
    rw [hreadonly, if_pos rfl] at hrun
    cases hrun
    exact .refused (.inl ⟨hreadonly, rfl⟩)
  | false =>
    rw [hreadonly, if_neg Bool.false_ne_true] at hrun
    simp only [run_bind, read, run_ofFun, ofExcept, run_find] at hrun
    cases hprobe : s.filterOf probe with
    | error e =>
      rw [hprobe] at hrun
      cases hrun
      exact .unfit hprobe
    | ok filter =>
      simp only [hprobe] at hrun
      cases hfound : s.lookup anchor with
      | none =>
        rw [hfound] at hrun
        cases hrun
        exact .missing hfound
      | some c =>
        rw [hfound] at hrun
        simp only [holding, run_bind, acquire, run_ofFun] at hrun
        cases hacq : s.locks.acquire who.thread (s.lockItem c) .writable with
        | error cause =>
          rw [hacq] at hrun
          cases hrun
          exact .refused (.inr ⟨c, hfound, hacq⟩)
        | ok p =>
          obtain ⟨g, locks⟩ := p
          have held : HeldRun who anchor s c g locks := ⟨hreadonly, hfound, hacq⟩
          obtain ⟨hs₁, hg₁⟩ := held.sound hs hg
          have hc₁ : Store.Live { s with locks } c := (held.live hs).1
          rw [hacq] at hrun
          have hwalked : ∀ n, neighbor.mapM s.lookup = some n →
              ∀ r s', (sever who c filter probe.direction (n.map s.keyOf)).run { s with locks } =
                (r, s') → DisconnectRun who anchor probe neighbor G s r (s'.drop g) := by
            intro n hn r s' hwalk
            obtain ⟨rm, s₁, rfl, rfl, walk⟩ := run_walk hs₁ hg₁ hc₁ hwalk
            exact .walked held hprobe hn walk
          cases neighbor with
          | none =>
            simp only [ensuring, run_ofFun] at hrun
            cases hrun
            exact hwalked none rfl _ _ rfl
          | some id =>
            simp only [ensuring, run_ofFun, run_bind] at hrun
            cases hid : s.lookup id with
            | none =>
              have hid' : Store.lookup { s with locks } id = none := hid
              rw [hid'] at hrun
              cases hrun
              exact .alone held rfl hid
            | some m =>
              have hid' : Store.lookup { s with locks } id = some m := hid
              rw [hid'] at hrun
              cases hrun
              exact hwalked (some m) (by simp [hid]) _ _ rfl

end Arcbase.Action
