import Arcbase.Proofs.Action.Expiring
import Arcbase.Proofs.Action.Quiet
import Arcbase.Store.Handle
import Mathlib.Order.Defs.Unbundled
set_option autoImplicit false

/-!
# Actions confined to a relation

An action is *confined* to a relation between stores if the store that it meets and the one
that it leaves stand in the relation, whether it succeeds or fails, and if it keeps an
invariant (`Confined`).  Guards are not accounted for.

What a relation must tolerate for the requests that add vertices and arcs is listed once:
what happens to vertices apart from their arcs (`Tolerates`), and how a single arc is
written (`Writes`).  Creating, opening and connecting are then confined to it.  Opening takes
no vertex out, so that it only needs a relation that tolerates gains (`ToleratesGains`), while
giving up what is held adds none (`ToleratesLosses`).
-/

namespace Arcbase

/-- A change that a request or a counter makes to an arc. -/
def ArcUpdate.Requested (u : ArcUpdate) (r : ArcRequest) : Prop :=
  ofRequest r = .ok u ∨ ∃ delta, u = add delta

namespace Action

open Store

variable {α β : Type} {agree : Agreement} {I : Store → Prop} {R : Store → Store → Prop}
  {P P' : Store → Prop} {who : Caller}

/-- On a sound store with the invariant, the action keeps both, and leaves a store that
stands in the relation to the one it met. -/
def Confined (agree : Agreement) (I : Store → Prop) (R : Store → Store → Prop)
    (P : Store → Prop) (a : Action α) (Q : α → Store → Prop) : Prop :=
  ∀ s r s', s.Sound agree → I s → P s → a.run s = (r, s') →
    s'.Sound agree ∧ I s' ∧ R s s' ∧ ∀ x, r = .ok x → Q x s'

/-! ## Sequences -/

theorem Confined.weaken {a : Action α} {Q Q' : α → Store → Prop} (h : Confined agree I R P a Q)
    (hpre : ∀ s, P' s → P s) (hpost : ∀ x s, Q x s → Q' x s) : Confined agree I R P' a Q' := by
  intro s r s' hs hi hp hrun
  obtain ⟨hs', hi', hk, hq⟩ := h s r s' hs hi (hpre s hp) hrun
  exact ⟨hs', hi', hk, fun x hx => hpost x s' (hq x hx)⟩

/-- A fact about the store at the start may be used throughout. -/
theorem Confined.intro {a : Action α} {Q : α → Store → Prop} {fact : Prop}
    (hfact : ∀ s, P s → fact) (h : fact → Confined agree I R P a Q) : Confined agree I R P a Q :=
  fun s r s' hs hi hp hrun => h (hfact s hp) s r s' hs hi hp hrun

/-- What is read off the store at the start may be used throughout. -/
theorem Confined.reading {γ : Type} (f : Store → γ) {a : Action α} {Q : α → Store → Prop}
    (h : ∀ y, Confined agree I R (fun s => f s = y ∧ P s) a Q) : Confined agree I R P a Q :=
  fun s r s' hs hi hp hrun => h (f s) s r s' hs hi ⟨rfl, hp⟩ hrun

/-- What the relation keeps is still so at the end. -/
theorem Confined.frame {a : Action α} {Q : α → Store → Prop} {N : Store → Prop}
    (hN : ∀ s s', R s s' → N s → N s') (h : Confined agree I R P a Q) :
    Confined agree I R (fun s => N s ∧ P s) a fun x s => N s ∧ Q x s := by
  intro s r s' hs hi hp hrun
  obtain ⟨hs', hi', hk, hq⟩ := h s r s' hs hi hp.2 hrun
  exact ⟨hs', hi', hk, fun x hx => ⟨hN s s' hk hp.1, hq x hx⟩⟩

theorem confined_ofFun {f : Store → Except Error α × Store} {Q : α → Store → Prop}
    (h : ∀ s, s.Sound agree → I s → P s →
      (f s).2.Sound agree ∧ I (f s).2 ∧ R s (f s).2 ∧ ∀ x, (f s).1 = .ok x → Q x (f s).2) :
    Confined agree I R P (ofFun f) Q := by
  intro s r s' hs hi hp hrun
  rw [run_ofFun] at hrun
  have hall := h s hs hi hp
  rw [hrun] at hall
  exact hall

/-- After a failed attempt nothing more is known of the store. -/
theorem confined_attempt {a : Action α} {Q : α → Store → Prop} (h : Confined agree I R P a Q) :
    Confined agree I R P (attempt a) fun r s => ∀ x, r = .ok x → Q x s := by
  intro s r s' hs hi hp hrun
  cases hrun₁ : a.run s with
  | mk r₁ s₁ =>
    simp only [attempt, run_ofFun, hrun₁] at hrun
    cases hrun
    obtain ⟨hs', hi', hk, hq⟩ := h s r₁ _ hs hi hp hrun₁
    exact ⟨hs', hi', hk, fun r hr => Except.ok.inj hr ▸ hq⟩

section Preorder

variable [IsPreorder Store R]

theorem confined_bind {a : Action α} {f : α → Action β} {M : α → Store → Prop}
    {Q : β → Store → Prop} (ha : Confined agree I R P a M)
    (hf : ∀ x, Confined agree I R (M x) (f x) Q) : Confined agree I R P (a >>= f) Q := by
  intro s r s' hs hi hp hrun
  rw [run_bind] at hrun
  cases hrun₁ : a.run s with
  | mk r₁ s₁ =>
    rw [hrun₁] at hrun
    obtain ⟨hs₁, hi₁, hk₁, hm⟩ := ha s r₁ s₁ hs hi hp hrun₁
    cases r₁ with
    | error e =>
      cases hrun
      exact ⟨hs₁, hi₁, hk₁, fun x hx => nomatch hx⟩
    | ok x =>
      obtain ⟨hs₂, hi₂, hk₂, hq⟩ := hf x s₁ r s' hs₁ hi₁ (hm x rfl) hrun
      exact ⟨hs₂, hi₂, trans_of R hk₁ hk₂, hq⟩

/-- An action that leaves the store as it is. -/
theorem confined_same {f : Store → Except Error α × Store} {Q : α → Store → Prop}
    (h : ∀ s, s.Sound agree → P s → (f s).2 = s ∧ ∀ x, (f s).1 = .ok x → Q x s) :
    Confined agree I R P (ofFun f) Q := by
  refine confined_ofFun fun s hs hi hp => ?_
  obtain ⟨hsame, hq⟩ := h s hs hp
  rw [hsame]
  exact ⟨hs, hi, refl_of R s, hq⟩

theorem confined_pure {x : α} {Q : α → Store → Prop} (h : ∀ s, P s → Q x s) :
    Confined agree I R P (pure x) Q :=
  confined_same (f := fun s => (.ok x, s)) fun s _ hp =>
    ⟨rfl, fun _ hy => Except.ok.inj hy ▸ h s hp⟩

theorem confined_read {f : Store → α} {Q : α → Store → Prop}
    (h : ∀ s, s.Sound agree → P s → Q (f s) s) : Confined agree I R P (read f) Q :=
  confined_same fun s hs hp => ⟨rfl, fun _ hy => Except.ok.inj hy ▸ h s hs hp⟩

theorem confined_read_any {f : Store → α} : Confined agree I R P (read f) fun _ => P :=
  confined_read fun _ _ hp => hp

theorem confined_ofExcept {x : Except Error α} {Q : α → Store → Prop}
    (h : ∀ s y, P s → x = .ok y → Q y s) : Confined agree I R P (ofExcept x) Q :=
  confined_same fun s _ hp => ⟨rfl, fun y hy => h s y hp hy⟩

theorem confined_fail {e : Error} {Q : α → Store → Prop} : Confined agree I R P (fail e) Q :=
  confined_ofExcept fun _ _ _ he => nomatch he

theorem confined_refuse {fault : Option VertexFault} :
    Confined agree I R P (refuse fault) fun _ => P := by
  cases fault with
  | none => exact confined_pure fun _ hp => hp
  | some f => exact confined_fail

theorem confined_checkWritable : Confined agree I R P checkWritable fun _ => P :=
  confined_same fun _ _ hp => ⟨rfl, fun _ _ => hp⟩

theorem confined_forM {xs : List α} {f : α → Action Unit}
    (h : ∀ x ∈ xs, Confined agree I R P (f x) fun _ => P) :
    Confined agree I R P (xs.forM f) fun _ => P := by
  induction xs with
  | nil => exact confined_pure (Q := fun _ => P) fun _ hp => hp
  | cons x rest ih =>
    change Confined agree I R P (f x >>= fun _ => rest.forM f) _
    exact confined_bind (h x List.mem_cons_self) fun _ =>
      ih fun y hy => h y (List.mem_cons_of_mem x hy)

theorem confined_foldlM {xs : List α} {f : β → α → Action β} {b : β}
    (h : ∀ b, ∀ x ∈ xs, Confined agree I R P (f b x) fun _ => P) :
    Confined agree I R P (xs.foldlM f b) fun _ => P := by
  induction xs generalizing b with
  | nil => exact confined_pure fun _ hp => hp
  | cons x rest ih =>
    rw [List.foldlM_cons]
    exact confined_bind (h b x List.mem_cons_self) fun _ =>
      ih fun b y hy => h b y (List.mem_cons_of_mem x hy)

/-- A loop that finds a live cell for every item. -/
theorem confined_mapM_cells {xs : List α} {f : α → Action CellId}
    (h : ∀ x ∈ xs, ∀ cs, Confined agree I R (AllLive cs) (f x) fun c => AllLive (c :: cs))
    (cs : List CellId) :
    Confined agree I R (AllLive cs) (xs.mapM f) fun found => AllLive (found ++ cs) := by
  induction xs generalizing cs with
  | nil => exact confined_pure fun _ hp => hp
  | cons x rest ih =>
    rw [List.mapM_cons]
    refine confined_bind (h x List.mem_cons_self cs) fun c => ?_
    refine confined_bind (ih (fun y hy => h y (List.mem_cons_of_mem x hy)) (c :: cs))
      fun found => ?_
    refine confined_pure fun s hall c' hc' => hall c' ?_
    rw [List.cons_append, List.mem_cons, List.mem_append] at hc'
    rw [List.mem_append, List.mem_cons]
    rcases hc' with h | h | h
    · exact .inr (.inl h)
    · exact .inl h
    · exact .inr (.inr h)

/-! ## Finding -/

theorem confined_lookup (cs : List CellId) {id : String} :
    Confined agree I R (AllLive cs) (read (·.lookup id)) fun found =>
      AllLive (found.toList ++ cs) := by
  refine confined_read fun s hs hl => ?_
  cases hlook : s.lookup id with
  | none => exact hl
  | some c => exact allLive_cons.2 ⟨(hs.placed.of_lookup hlook).1, hl⟩

theorem confined_find (cs : List CellId) {id : String} :
    Confined agree I R (AllLive cs) (find id) fun c => AllLive (c :: cs) := by
  refine confined_bind (confined_lookup cs) fun found => ?_
  cases found with
  | none => exact confined_fail
  | some c => exact confined_pure fun _ hl => hl

end Preorder

/-! ## Changes apart from arcs -/

/-- A change of the store keeps the invariant and stays in the relation. -/
def Keeps (I : Store → Prop) (R : Store → Store → Prop) (s s' : Store) : Prop := I s' ∧ R s s'

/-- What happens at a time to vertices that stay, apart from their arcs, and to everything around
them, keeps the invariant and stays in the relation. -/
structure ToleratesChanges (agree : Agreement) (now : UInt32) (I : Store → Prop)
    (R : Store → Store → Prop) : Prop where
  locks : ∀ s locks, I s → Keeps I R s { s with locks }
  labels : ∀ s label, I s → Keeps I R s { s with labels := (s.labels.encodeRelationship label).2 }
  types : ∀ s label, I s → Keeps I R s { s with labels := (s.labels.encodeType label).2 }
  promote : ∀ s c, s.Sound agree → I s → Keeps I R s (s.modifyData c (·.promote now))
  edit : ∀ s c f, s.Sound agree → KeepsArcs f →
    (∀ d, (f d).modified = now ∧ (f d).expires = d.expires ∧ (f d).type = d.type) → I s →
      Keeps I R s (s.modifyData c f)

/-- That an orphan goes is tolerated as well. -/
structure ToleratesLosses (agree : Agreement) (now : UInt32) (I : Store → Prop)
    (R : Store → Store → Prop) : Prop extends ToleratesChanges agree now I R where
  collect : ∀ s c, s.Sound agree → I s → Keeps I R s (s.collectOrphan c)

/-- That a vertex comes is tolerated as well. -/
structure ToleratesGains (agree : Agreement) (now : UInt32) (I : Store → Prop)
    (R : Store → Store → Prop) : Prop extends ToleratesChanges agree now I R where
  add : ∀ s id manifestation, s.Sound agree → s.lookupKey (.of id) = none → I s →
    Keeps I R s (s.addCell { id, key := .of id, data := .new manifestation now })

/-- Whatever happens at a time to vertices apart from their arcs keeps the invariant and stays in
the relation. -/
structure Tolerates (agree : Agreement) (now : UInt32) (I : Store → Prop)
    (R : Store → Store → Prop) : Prop extends ToleratesLosses agree now I R,
    ToleratesGains agree now I R

theorem FrameStable.locks (h : FrameStable P) (s : Store) (locks : LockTable) (hp : P s) :
    P { s with locks } := h _ _ (sameFrame_locks s locks) hp

/-- A change of the store at the end, after success and failure alike. -/
theorem confined_ensuring [IsPreorder Store R] {a : Action α} {f : Store → Store}
    {Q : α → Store → Prop} (h : Confined agree I R P a Q)
    (hf : ∀ s, s.Sound agree → I s → (f s).Sound agree ∧ Keeps I R s (f s)) :
    Confined agree I R P (ensuring a f) fun _ _ => True := by
  intro s r s' hs hi hp hrun
  cases hrun₁ : a.run s with
  | mk r₁ s₁ =>
    simp only [ensuring, run_ofFun, hrun₁] at hrun
    cases hrun
    obtain ⟨hs₁, hi₁, hk₁, _⟩ := h s _ _ hs hi hp hrun₁
    obtain ⟨hs₂, hi₂, hk₂⟩ := hf s₁ hs₁ hi₁
    exact ⟨hs₂, hi₂, trans_of R hk₁ hk₂, fun _ _ => trivial⟩

section Changes

variable (tol : ToleratesChanges agree who.now I R)
include tol

theorem ToleratesChanges.promoting {c : CellId} (hpre : FrameStable P) :
    Confined agree I R P (update (·.modifyData c (·.promote who.now))) fun _ => P := by
  refine confined_ofFun fun s hs hi hp => ?_
  have hkeeps := keepsArcs_promote who.now
  obtain ⟨hi', hk⟩ := tol.promote s c hs hi
  refine ⟨(Step.attributes (W := fun _ => True) trivial hkeeps).sound hs, hi', hk, fun _ _ => ?_⟩
  exact hpre _ _ (hkeeps.sameFrame s c) hp

theorem ToleratesChanges.editing {c : CellId} {f : VertexData → VertexData} (hf : KeepsArcs f)
    (hkept : ∀ d, (f d).modified = who.now ∧ (f d).expires = d.expires ∧ (f d).type = d.type)
    (hpre : FrameStable P) : Confined agree I R P (update (·.modifyData c f)) fun _ => P := by
  refine confined_ofFun fun s hs hi hp => ?_
  obtain ⟨hi', hk⟩ := tol.edit s c f hs hf hkept hi
  refine ⟨(Step.attributes (W := fun _ => True) trivial hf).sound hs, hi', hk, fun _ _ => ?_⟩
  exact hpre _ _ (hf.sameFrame s c) hp

/-- Reading holds and gives up locks. -/
theorem ToleratesChanges.reading {G : List Guard} {a : Action α} {Q : α → Store → Prop}
    {s s' : Store} {r : Except Error α} (h : Quiet agree G (fun _ => True) a Q)
    (hs : s.Sound agree) (hg : s.Guarded G) (hi : I s) (hrun : a.run s = (r, s')) :
    Keeps I R s s' := by
  rw [(h s r s' hs hg trivial hrun).1]
  exact tol.locks s _ hi

theorem ToleratesChanges.acquiring {c : CellId} {mode : LockMode}
    (hpre : ∀ s locks, P s → P { s with locks }) :
    Confined agree I R P (acquire who c mode) fun _ => P := by
  refine confined_ofFun fun s hs hi hp => ?_
  cases s.locks.acquire who.thread (s.lockItem c) mode with
  | error e =>
    obtain ⟨_, hk⟩ := tol.locks s s.locks hi
    exact ⟨hs, hi, hk, fun _ hx => nomatch hx⟩
  | ok p =>
    obtain ⟨hi', hk⟩ := tol.locks s p.2 hi
    exact ⟨hs.withLocks p.2, hi', hk, fun _ _ => hpre s p.2 hp⟩

theorem ToleratesChanges.acquiringMany {cells : List CellId} {mode : LockMode}
    (hpre : ∀ s locks, P s → P { s with locks }) :
    Confined agree I R P (acquireMany who cells mode) fun _ => P := by
  refine confined_ofFun fun s hs hi hp => ?_
  obtain ⟨hi', hk⟩ := tol.locks s (s.locks.acquireMany who.thread (cells.map s.lockItem) mode).2 hi
  exact ⟨hs.withLocks _, hi', hk, fun _ _ => hpre s _ hp⟩

theorem ToleratesChanges.encodingType {label : String} (hpre : FrameStable P) :
    Confined agree I R P (encodeType label) fun _ => P := by
  refine confined_ofFun fun s hs hi hp => ?_
  obtain ⟨hi', hk⟩ := tol.types s label hi
  exact ⟨hs.withLabels _, hi', hk, fun _ _ => hpre s _ (sameFrame_of_cells rfl rfl) hp⟩

variable [IsPreorder Store R]

theorem ToleratesChanges.acquiringExisting (id : String) (mode : LockMode) :
    Confined agree I R (fun _ => True) (acquireExisting who id mode) fun _ _ => True :=
  confined_bind ((confined_find []).weaken (fun _ _ => allLive_nil) fun _ _ _ => trivial)
    fun _ => tol.acquiring frameStable_true.locks

/-! ## Working through a guard -/

omit tol in
theorem confined_requireWritable (g : Guard) :
    Confined agree I R P (requireWritable g) fun _ => P := by
  unfold requireWritable
  split
  · exact confined_pure fun _ h => h
  · exact confined_fail

theorem ToleratesChanges.settingProperty (g : Guard) (name : String) (value : PropertyValue) :
    Confined agree I R (fun _ => True) (setProperty who g name value) fun _ _ => True :=
  confined_bind (confined_requireWritable g) fun _ =>
    tol.editing (fun _ => ⟨rfl, rfl, rfl, rfl, rfl⟩) (fun _ => ⟨rfl, rfl, rfl⟩) frameStable_true

theorem ToleratesChanges.removingProperty (g : Guard) (name : String) :
    Confined agree I R (fun _ => True) (removeProperty who g name) fun _ _ => True := by
  refine confined_bind (confined_requireWritable g) fun _ => ?_
  refine confined_bind confined_read_any fun old => ?_
  dsimp only
  split
  · exact confined_bind (tol.editing (fun _ => ⟨rfl, rfl, rfl, rfl, rfl⟩) (fun _ => ⟨rfl, rfl, rfl⟩)
      frameStable_true) fun _ => confined_pure fun _ h => h
  · exact confined_pure fun _ h => h

theorem ToleratesChanges.settingVector (g : Guard) (vector : List Binary32) :
    Confined agree I R (fun _ => True) (setVector who g vector) fun _ _ => True := by
  refine confined_bind (confined_requireWritable g) fun _ => ?_
  split
  · exact tol.editing (fun _ => ⟨rfl, rfl, rfl, rfl, rfl⟩) (fun _ => ⟨rfl, rfl, rfl⟩)
      frameStable_true
  · exact confined_fail

theorem ToleratesChanges.escalating (g : Guard) :
    Confined agree I R (fun _ => True) (escalate g) fun _ _ => True := by
  refine confined_ofFun fun s hs hi _ => ?_
  cases s.locks.escalate g with
  | error e => exact ⟨hs, hi, refl_of R s, fun _ _ => trivial⟩
  | ok p =>
    obtain ⟨hi', hk⟩ := tol.locks s p.2 hi
    exact ⟨hs.withLocks p.2, hi', hk, fun _ _ => trivial⟩

end Changes

/-! ## Giving up -/

section Losses

variable (tol : ToleratesLosses agree who.now I R) [IsPreorder Store R]
include tol

theorem ToleratesLosses.collecting {s : Store} (hs : s.Sound agree) (hi : I s) (b : Bool)
    (c : CellId) : Keeps I R s (if b then s.collectOrphan c else s) := by
  split
  · exact tol.collect s c hs hi
  · exact ⟨hi, refl_of R s⟩

theorem ToleratesLosses.dropping {s : Store} (hs : s.Sound agree) (hi : I s) (g : Guard) :
    (s.drop g).Sound agree ∧ Keeps I R s (s.drop g) := by
  obtain ⟨hi₁, hk₁⟩ := tol.collecting hs hi (g.isWritable && s.locks.isOutermost g) g.item.slot
  obtain ⟨hi₂, hk₂⟩ := tol.locks _ (s.drop g).locks hi₁
  exact ⟨sound_drop hs g, hi₂, trans_of R hk₁ hk₂⟩

theorem ToleratesLosses.droppingAll {s : Store} (hs : s.Sound agree) (hi : I s)
    (guards : List Guard) : (s.dropAll guards).Sound agree ∧ Keeps I R s (s.dropAll guards) := by
  induction guards generalizing s with
  | nil => exact ⟨hs, hi, refl_of R s⟩
  | cons g rest ih =>
    obtain ⟨hs₁, hi₁, hk₁⟩ := tol.dropping hs hi g
    obtain ⟨hs₂, hi₂, hk₂⟩ := ih hs₁ hi₁
    exact ⟨hs₂, hi₂, trans_of R hk₁ hk₂⟩

theorem ToleratesLosses.holding {c : CellId} {mode : LockMode} {body : Action α}
    {Q : α → Store → Prop} (hpre : ∀ s locks, P s → P { s with locks })
    (h : Confined agree I R P body Q) :
    Confined agree I R P (Action.holding who c mode body) fun _ _ => True :=
  confined_bind (tol.acquiring hpre) fun g => confined_ensuring h fun _ hs hi =>
    tol.dropping hs hi g

theorem ToleratesLosses.holdingMany {cells : List CellId} {mode : LockMode} {body : Action α}
    {Q : α → Store → Prop} (hpre : ∀ s locks, P s → P { s with locks })
    (h : Confined agree I R P body Q) :
    Confined agree I R P (Action.holdingMany who cells mode body) fun _ _ => True :=
  confined_bind (tol.acquiringMany hpre) fun guards => confined_ensuring h fun _ hs hi =>
    tol.droppingAll hs hi guards

theorem ToleratesLosses.relaxing (g : Guard) :
    Confined agree I R (fun _ => True) (relax g) fun _ _ => True := by
  refine confined_bind (M := fun _ _ => True) (confined_ofFun fun s hs hi _ => ?_) fun _ => ?_
  · obtain ⟨hi', hk⟩ := tol.collecting hs hi (g.isWritable && s.locks.isOutermost g) g.item.slot
    refine ⟨?_, hi', hk, fun _ _ => trivial⟩
    dsimp only
    split
    · exact sound_collectOrphan hs _
    · exact hs
  refine confined_bind (M := fun _ _ => True) (confined_ofFun fun s hs hi _ => ?_)
    fun relaxed => ?_
  · obtain ⟨hi', hk⟩ := tol.locks s (s.locks.relax g).2 hi
    exact ⟨hs.withLocks _, hi', hk, fun _ _ => trivial⟩
  cases relaxed with
  | none => exact confined_pure fun _ h => h
  | some g =>
    refine confined_bind confined_read_any fun gone => ?_
    split
    · refine confined_bind (M := fun _ _ => True) (confined_ofFun fun s hs hi _ => ?_) fun _ =>
        confined_fail
      obtain ⟨hs', hi', hk⟩ := tol.dropping hs hi g
      exact ⟨hs', hi', hk, fun _ _ => trivial⟩
    · exact confined_pure fun _ h => h

end Losses

/-! ## Adding and opening -/

section Gains

variable (tol : ToleratesGains agree who.now I R) [IsPreorder Store R]
include tol

theorem ToleratesGains.findingOrAdding (cs : List CellId) {id : String}
    {manifestation : Manifestation} :
    Confined agree I R (AllLive cs) (findOrAdd who id manifestation) fun found =>
      AllLive (found.1 :: cs) := by
  refine confined_bind confined_read_any fun fault => ?_
  refine confined_bind confined_refuse fun _ => ?_
  refine confined_bind (M := fun found s => AllLive cs s ∧ s.lookupKey (.of id) = found)
    (confined_read fun s _ hl => ⟨hl, rfl⟩) fun found => ?_
  cases found with
  | some c =>
    refine confined_bind (confined_read (Q := fun _ => AllLive (c :: cs)) fun s hs hl => ?_)
      fun present => ?_
    · exact allLive_cons.2 ⟨hs.placed.live_of_lookup hl.2, hl.1⟩
    · split
      · exact confined_pure fun _ hl => hl
      · exact confined_fail
  | none =>
    refine confined_bind
      (M := fun c s => (AllLive cs s ∧ s.lookupKey (.of id) = none) ∧ s.cells.size = c)
      (confined_read fun s _ hl => ⟨hl, rfl⟩) fun c => ?_
    refine confined_bind (M := fun _ => AllLive (c :: cs)) (confined_ofFun fun s hs hi hl => ?_)
      fun _ => confined_pure fun _ hl => hl
    obtain ⟨⟨hl, hfresh⟩, rfl⟩ := hl
    have hlive : ∀ c, (s.addCell { id, key := .of id, data := .new manifestation who.now }).Live c ↔
        c = s.cells.size ∨ s.Live c := fun _ => live_addCell_iff rfl
    have hbare := bare_new manifestation who.now
    obtain ⟨hi', hk⟩ := tol.add s id manifestation hs hfresh hi
    refine ⟨(Step.add (W := fun _ => True) hfresh rfl rfl hbare).sound hs, hi', hk, fun _ _ => ?_⟩
    exact allLive_cons.2 ⟨(hlive _).2 (.inl rfl), fun c hc => (hlive c).2 (.inr (hl c hc))⟩

theorem ToleratesGains.openingVertex (id : String) (mode : OpenMode) :
    Confined agree I R (fun _ => True) (openVertex who id mode) fun _ _ => True := by
  cases mode with
  | readonly => exact tol.acquiringExisting id .readonly
  | append =>
    refine confined_bind confined_checkWritable fun _ => ?_
    refine confined_bind (tol.acquiringExisting id .writable) fun g => ?_
    exact confined_bind (tol.promoting frameStable_true) fun _ => confined_pure fun _ h => h
  | write =>
    refine confined_bind confined_checkWritable fun _ => ?_
    refine confined_bind ((tol.findingOrAdding []).weaken (fun _ _ => allLive_nil)
      fun _ _ _ => trivial) fun (c, _) => ?_
    refine confined_bind (tol.acquiring frameStable_true.locks) fun g => ?_
    exact confined_bind (tol.promoting frameStable_true) fun _ => confined_pure fun _ h => h

theorem ToleratesGains.openingAll (ids : List String) (mode : OpenMode) (lockMode : LockMode) :
    Confined agree I R (fun _ => True) (openAll who ids mode lockMode) fun _ _ => True := by
  have hcells : Confined agree I R (AllLive []) (cellsToOpen who ids mode) fun cells =>
      AllLive (cells ++ []) := by
    refine confined_mapM_cells (fun id _ cs => ?_) []
    cases mode with
    | write =>
      exact confined_bind (tol.findingOrAdding cs) fun found => confined_pure fun _ h => h
    | readonly => exact confined_find cs
    | append => exact confined_find cs
  refine confined_bind (hcells.weaken (fun _ _ => allLive_nil) fun _ _ _ => trivial)
    fun cells => ?_
  refine confined_bind (tol.acquiringMany frameStable_true.locks) fun new => ?_
  refine confined_bind (confined_forM fun c _ => ?_) fun _ => confined_pure fun _ h => h
  split
  · exact tol.promoting frameStable_true
  · exact confined_pure fun _ h => h

theorem ToleratesGains.openingVertices (ids : List String) (mode : OpenMode) :
    Confined agree I R (fun _ => True) (openVertices who ids mode) fun _ _ => True := by
  unfold openVertices
  split
  next => exact confined_fail
  next =>
    cases mode with
    | readonly => exact tol.openingAll ids .readonly .readonly
    | append =>
      exact confined_bind confined_checkWritable fun _ => tol.openingAll ids .append .writable
    | write =>
      exact confined_bind confined_checkWritable fun _ => tol.openingAll ids .write .writable

end Gains

/-! ## Connecting -/

/-- The code of a relationship is known by a predicate that the relation keeps, and under
such a code an arc of a request is written within the relation. -/
structure Writes (agree : Agreement) (now : UInt32) (I : Store → Prop)
    (R : Store → Store → Prop) (N : LabelCode → Store → Prop) (r : ConnectRequest)
    (u : ArcUpdate) : Prop where
  kept : ∀ code s s', R s s' → N code s → N code s'
  named : ∀ code s, I s → (s.labels.encodeRelationship r.arc.relationship).1 = .ok code →
    N code { s with labels := (s.labels.encodeRelationship r.arc.relationship).2 }
  write : ∀ code s i t, s.Sound agree → I s → s.Live i → s.Live t → r.arc.relationship ≠ "" →
    N code s → Keeps I R s (s.connectTo now r code u i t).2

section Connecting

variable {N : LabelCode → Store → Prop} {r : ConnectRequest} {u : ArcUpdate}
  (tol : Tolerates agree who.now I R) [IsPreorder Store R]
include tol

theorem Writes.held (hw : Writes agree who.now I R N r u) (hne : r.arc.relationship ≠ "")
    (code : LabelCode) (gate : Option Gate) (i : CellId) (terminals : List CellId) :
    Confined agree I R (fun s => N code s ∧ AllLive (i :: terminals) s)
      (connectHeld who r code u gate i terminals) fun _ _ => True := by
  have hstable := frameStable_allLive (i :: terminals)
  refine confined_bind (confined_read_any (f := id)) fun s => ?_
  refine confined_bind (confined_ofExcept (Q := fun passing s => (∀ t ∈ passing, t ∈ terminals) ∧
    N code s ∧ AllLive (i :: terminals) s) ?_) fun passing => ?_
  · intro s' passing hl hadm
    refine ⟨?_, hl⟩
    cases ha : admitted s r.arc code gate i terminals with
    | error e =>
      rw [ha] at hadm
      cases hadm
    | ok passing' =>
      rw [ha] at hadm
      cases hadm
      exact admitted_subset ha
  · refine .intro (fun _ h => h.1) fun hsub => ?_
    refine confined_bind (((tol.promoting hstable).frame (hw.kept code)).weaken (fun _ h => h.2)
      fun _ _ h => h) fun _ => ?_
    refine (confined_foldlM fun acc t ht => ?_).weaken (fun _ h => h) fun _ _ _ => trivial
    refine confined_bind (M := fun _ s => N code s ∧ AllLive (i :: terminals) s)
      (confined_ofFun ?_) fun _ => confined_pure fun _ h => h
    intro s hs hi hl
    have hlive := allLive_cons.1 hl.2
    have hlt := hlive.2 t (hsub t ht)
    have w := writing_connectTo (W := fun _ => True) trivial trivial hlive.1 hlt who.now r code u
    obtain ⟨hi', hk⟩ := hw.write code s i t hs hi hlive.1 hlt hne hl.1
    exact ⟨Steps.sound w.steps hs, hi', hk,
      fun _ _ => ⟨hw.kept code _ _ hk hl.1, hstable _ _ w.frame hl.2⟩⟩

theorem Tolerates.terminals (initial : String) (i : CellId) (terminals : Terminals) :
    Confined agree I R (AllLive [i]) (terminalCells who initial i terminals) fun found s =>
      AllLive (i :: found.1) s := by
  cases terminals with
  | one t =>
    unfold terminalCells
    dsimp only
    split
    · exact confined_pure fun s hl => allLive_cons.2 ⟨hl i List.mem_cons_self, hl⟩
    · refine confined_bind (tol.findingOrAdding [i]) fun (c, isNew) => confined_pure fun s hl => ?_
      have hlive := allLive_cons.1 hl
      exact allLive_cons.2 ⟨hlive.2 i List.mem_cons_self, allLive_cons.2 ⟨hlive.1, allLive_nil⟩⟩
  | list ids =>
    refine confined_bind (confined_mapM_cells (fun id _ cs => ?_) [i]) fun cells => ?_
    · refine confined_bind (confined_lookup cs) fun found => ?_
      cases found with
      | none => exact confined_fail
      | some c => exact confined_pure fun _ h => h
    · refine confined_pure fun s hl => ?_
      exact allLive_cons.2 ⟨hl i (List.mem_append_right _ List.mem_cons_self),
        fun c hc => hl c (List.mem_append_left _ hc)⟩

theorem Tolerates.collectingUnheld (cells : List CellId) :
    Confined agree I R (fun _ => True) (collectUnheld who cells) fun _ _ => True := by
  refine confined_forM fun c _ => ?_
  refine confined_bind (M := fun _ _ => True)
    ((confined_attempt (tol.acquiring frameStable_true.locks)).weaken (fun _ h => h)
      fun _ _ _ => trivial) fun r => ?_
  cases r with
  | error e => exact confined_pure fun _ h => h
  | ok g =>
    refine confined_ofFun fun s hs hi _ => ?_
    obtain ⟨hs', hi', hk⟩ := tol.dropping hs hi g
    exact ⟨hs', hi', hk, fun _ _ => trivial⟩

theorem Writes.encoded (hw : Writes agree who.now I R N r u) (hne : r.arc.relationship ≠ "")
    (code : LabelCode) (gate : Option Gate) :
    Confined agree I R (N code) (connectAs who r code u gate) fun _ _ => True := by
  refine confined_bind (((tol.findingOrAdding []).frame (hw.kept code)).weaken
    (fun _ h => ⟨h, allLive_nil⟩) fun _ _ h => h) fun (i, _) => ?_
  refine confined_bind ((tol.terminals r.initial i r.terminals).frame (hw.kept code))
    fun (terminals, added) => ?_
  refine confined_bind (confined_attempt
    ((tol.acquiringMany (frameStable_allLive _).locks).frame (hw.kept code))) fun guards => ?_
  cases guards with
  | error e =>
    exact confined_bind ((tol.collectingUnheld added).weaken (fun _ _ => trivial) fun _ _ h => h)
      fun _ => confined_fail
  | ok guards =>
    refine confined_ensuring ((hw.held tol hne code gate i terminals).weaken
      (fun _ h => h guards rfl) fun _ _ h => h) fun s hs hi => tol.droppingAll hs hi guards

theorem Writes.connectingWith (hw : Writes agree who.now I R N r u) :
    Confined agree I R (fun _ => True) (connectWith who r u) fun _ _ => True := by
  unfold connectWith
  refine confined_bind confined_checkWritable fun _ => ?_
  refine confined_bind confined_read_any fun fault => confined_bind confined_refuse fun _ => ?_
  split
  · exact confined_fail
  next hfit =>
    have hne : r.arc.relationship ≠ "" := fun e => hfit (.inl e)
    refine confined_bind confined_read_any fun condition => ?_
    refine confined_bind (confined_ofExcept (Q := fun _ _ => True) fun _ _ h _ => h) fun gate => ?_
    refine confined_bind (M := fun _ _ => True) ?_ fun ids => ?_
    · unfold terminalIds
      split
      · exact confined_pure fun _ h => h
      · exact confined_bind confined_read_any fun _ => confined_bind confined_refuse fun _ =>
          confined_pure fun _ h => h
    split
    · exact confined_pure fun _ h => h
    · refine confined_bind confined_read_any fun fault => confined_bind confined_refuse fun _ => ?_
      refine confined_bind (M := fun code => N code) (confined_ofFun fun s hs hi _ => ?_)
        fun code => hw.encoded tol hne code gate
      obtain ⟨hi', hk⟩ := tol.labels s r.arc.relationship hi
      exact ⟨hs.withLabels _, hi', hk, fun code hcode => hw.named code s hi hcode⟩

variable (hw : ∀ r u, u.Requested r.arc → Writes agree who.now I R N r u)
include hw

theorem Tolerates.connecting (r : ConnectRequest) :
    Confined agree I R (fun _ => True) (connect who r) fun _ _ => True := by
  refine confined_bind (confined_ofExcept (Q := fun u _ => u.Requested r.arc)
    fun _ _ _ hu => .inl hu) fun u => ?_
  refine .intro (fun _ h => h) fun hu => ?_
  exact confined_bind (((hw r u hu).connectingWith tol).weaken (fun _ _ => trivial) fun _ _ h => h)
    fun _ => confined_pure fun _ h => h

theorem Tolerates.addingTo (initial relationship terminal : String) (kind : ArcKind)
    (delta : Binary64) :
    Confined agree I R (fun _ => True) (addTo who initial relationship terminal kind delta)
      fun _ _ => True := by
  let r : ConnectRequest := { initial, arc := { relationship, kind }, terminals := .one terminal }
  have hwrite := (hw r (.add delta) (.inr ⟨delta, rfl⟩)).connectingWith tol
  unfold addTo
  dsimp only
  split
  on_goal 1 => refine confined_bind (M := fun _ _ => True) confined_fail fun _ => ?_
  all_goals
    refine confined_bind hwrite fun written => ?_
    split
    · exact confined_pure fun _ h => h
    · exact confined_fail

theorem Tolerates.counting (initial relationship terminal : String) (delta : Option Int) :
    Confined agree I R (fun _ => True) (count who initial relationship terminal delta)
      fun _ _ => True :=
  confined_bind (tol.addingTo hw _ _ _ _ _) fun _ => confined_pure fun _ h => h

theorem Tolerates.accumulating (initial relationship terminal : String)
    (delta : Option Binary64) :
    Confined agree I R (fun _ => True) (accumulate who initial relationship terminal delta)
      fun _ _ => True :=
  confined_bind (tol.addingTo hw _ _ _ _ _) fun _ => confined_pure fun _ h => h

theorem Tolerates.markingArc (initial relationship terminal : String) (time : UInt32) :
    Confined agree I R (fun _ => True)
      (markArcExpiring who initial relationship terminal time) fun _ _ => True := by
  unfold markArcExpiring
  refine confined_bind confined_checkWritable fun _ => ?_
  refine confined_bind confined_read_any fun filter => ?_
  refine confined_bind (confined_ofExcept (Q := fun _ _ => True) fun _ _ h _ => h) fun filter => ?_
  refine confined_bind confined_read_any fun i => confined_bind confined_read_any fun t => ?_
  split
  next i t =>
    refine tol.holdingMany (Q := fun _ _ => True) frameStable_true.locks ?_
    refine confined_bind confined_read_any fun present => ?_
    split
    · exact confined_bind (tol.connecting hw _) fun _ => confined_pure fun _ h => h
    · exact confined_fail
  next => exact confined_fail

end Connecting

end Action

end Arcbase
