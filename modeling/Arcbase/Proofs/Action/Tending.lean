import Arcbase.Proofs.Action.Expiring
import Arcbase.Proofs.Store.Timely
set_option autoImplicit false

/-!
# Actions that lose no expiration

An action *tends* a store if it keeps a timely store timely and gives no vertex that was
there another time at which it expires (`Tending`).  Creating, opening and connecting do,
whether they succeed or fail.  That takes no account of guards: access that is given up may
take a vertex out of the graph, and a vertex that is taken out does not expire.
-/

namespace Arcbase

namespace Store

/-- The cells are still there, their vertices expire when they did, and no label has lost its
code. -/
structure Kept (s s' : Store) : Prop where
  cells : s.Extends s'
  names : s.labels.relationships.Keeps s'.labels.relationships
  expires : ∀ c, c < s.cells.size → (s'.data c).expires = (s.data c).expires

variable {s s' s'' : Store}

theorem Kept.refl (s : Store) : s.Kept s := ⟨.refl s, .refl _, fun _ _ => rfl⟩

theorem Kept.trans (h : s.Kept s') (h' : s'.Kept s'') : s.Kept s'' :=
  ⟨h.cells.trans h'.cells, h.names.trans h'.names, fun c hc =>
    (h'.expires c (Nat.lt_of_lt_of_le hc h.cells.count)).trans (h.expires c hc)⟩

theorem Calm.kept (h : s.Calm s')
    (he : ∀ c, c < s.cells.size → (s'.data c).expires = (s.data c).expires) : s.Kept s' :=
  ⟨h.cells, h.names, he⟩

theorem SameTimes.kept {E : CellId → CellId → LabelCode → Prop} (h : SameTimes E s s') :
    s.Kept s' := ⟨h.frame.extends, h.dates.labels ▸ .refl _, fun c _ => h.dates.expires c⟩

theorem kept_drop (s : Store) (g : Guard) : s.Kept (s.drop g) :=
  (calm_drop s g).kept fun c _ => (sameDates_drop s g).expires c

end Store

namespace Action

open Store

variable {α β : Type} {agree : Agreement} {pending : Expiring → Option UInt32}
  {P P' : Store → Prop} {who : Caller}

/-- On a timely store, the action loses no expiration and changes none. -/
def Tending (agree : Agreement) (pending : Expiring → Option UInt32) (P : Store → Prop)
    (a : Action α) (Q : α → Store → Prop) : Prop :=
  ∀ s r s', s.Sound agree → s.Timely pending → P s → a.run s = (r, s') →
    s'.Sound agree ∧ s'.Timely pending ∧ s.Kept s' ∧ ∀ x, r = .ok x → Q x s'

/-! ## Sequences -/

theorem Tending.weaken {a : Action α} {Q Q' : α → Store → Prop}
    (h : Tending agree pending P a Q) (hpre : ∀ s, P' s → P s)
    (hpost : ∀ x s, Q x s → Q' x s) : Tending agree pending P' a Q' := by
  intro s r s' hs ht hp hrun
  obtain ⟨hs', ht', hk, hq⟩ := h s r s' hs ht (hpre s hp) hrun
  exact ⟨hs', ht', hk, fun x hx => hpost x s' (hq x hx)⟩

/-- A fact about the store at the start may be used throughout. -/
theorem Tending.intro {a : Action α} {Q : α → Store → Prop} {fact : Prop}
    (hfact : ∀ s, P s → fact) (h : fact → Tending agree pending P a Q) :
    Tending agree pending P a Q :=
  fun s r s' hs ht hp hrun => h (hfact s hp) s r s' hs ht hp hrun

/-- What is kept of every store is still so at the end. -/
theorem Tending.frame {a : Action α} {Q : α → Store → Prop} (R : Store → Prop)
    (hR : ∀ s s', s.Kept s' → R s → R s') (h : Tending agree pending P a Q) :
    Tending agree pending (fun s => R s ∧ P s) a fun x s => R s ∧ Q x s := by
  intro s r s' hs ht hp hrun
  obtain ⟨hs', ht', hk, hq⟩ := h s r s' hs ht hp.2 hrun
  exact ⟨hs', ht', hk, fun x hx => ⟨hR s s' hk hp.1, hq x hx⟩⟩

theorem tending_bind {a : Action α} {f : α → Action β} {M : α → Store → Prop}
    {Q : β → Store → Prop} (ha : Tending agree pending P a M)
    (hf : ∀ x, Tending agree pending (M x) (f x) Q) : Tending agree pending P (a >>= f) Q := by
  intro s r s' hs ht hp hrun
  rw [run_bind] at hrun
  cases hrun₁ : a.run s with
  | mk r₁ s₁ =>
    rw [hrun₁] at hrun
    obtain ⟨hs₁, ht₁, hk₁, hm⟩ := ha s r₁ s₁ hs ht hp hrun₁
    cases r₁ with
    | error e =>
      cases hrun
      exact ⟨hs₁, ht₁, hk₁, fun x hx => nomatch hx⟩
    | ok x =>
      obtain ⟨hs₂, ht₂, hk₂, hq⟩ := hf x s₁ r s' hs₁ ht₁ (hm x rfl) hrun
      exact ⟨hs₂, ht₂, hk₁.trans hk₂, hq⟩

theorem tending_ofFun {f : Store → Except Error α × Store} {Q : α → Store → Prop}
    (h : ∀ s, s.Sound agree → s.Timely pending → P s →
      (f s).2.Sound agree ∧ (f s).2.Timely pending ∧ s.Kept (f s).2 ∧
        ∀ x, (f s).1 = .ok x → Q x (f s).2) : Tending agree pending P (ofFun f) Q := by
  intro s r s' hs ht hp hrun
  rw [run_ofFun] at hrun
  have hall := h s hs ht hp
  rw [hrun] at hall
  exact hall

/-- An action that leaves the store as it is. -/
theorem tending_same {f : Store → Except Error α × Store} {Q : α → Store → Prop}
    (h : ∀ s, s.Sound agree → P s → (f s).2 = s ∧ ∀ x, (f s).1 = .ok x → Q x s) :
    Tending agree pending P (ofFun f) Q := by
  refine tending_ofFun fun s hs ht hp => ?_
  obtain ⟨hsame, hq⟩ := h s hs hp
  rw [hsame]
  exact ⟨hs, ht, .refl s, hq⟩

theorem tending_pure {x : α} {Q : α → Store → Prop} (h : ∀ s, P s → Q x s) :
    Tending agree pending P (pure x) Q :=
  tending_same (f := fun s => (.ok x, s)) fun s _ hp => ⟨rfl, fun _ hy => Except.ok.inj hy ▸ h s hp⟩

theorem tending_read {f : Store → α} {Q : α → Store → Prop}
    (h : ∀ s, s.Sound agree → P s → Q (f s) s) : Tending agree pending P (read f) Q :=
  tending_same fun s hs hp => ⟨rfl, fun _ hy => Except.ok.inj hy ▸ h s hs hp⟩

theorem tending_read_any {f : Store → α} : Tending agree pending P (read f) fun _ => P :=
  tending_read fun _ _ hp => hp

theorem tending_ofExcept {x : Except Error α} {Q : α → Store → Prop}
    (h : ∀ s y, P s → x = .ok y → Q y s) : Tending agree pending P (ofExcept x) Q :=
  tending_same fun s _ hp => ⟨rfl, fun y hy => h s y hp hy⟩

theorem tending_fail {e : Error} {Q : α → Store → Prop} : Tending agree pending P (fail e) Q :=
  tending_ofExcept fun _ _ _ he => nomatch he

theorem tending_refuse {fault : Option VertexFault} :
    Tending agree pending P (refuse fault) fun _ => P := by
  cases fault with
  | none => exact tending_pure fun _ hp => hp
  | some f => exact tending_fail

theorem tending_checkWritable : Tending agree pending P checkWritable fun _ => P :=
  tending_same fun _ _ hp => ⟨rfl, fun _ _ => hp⟩

/-- After a failed attempt nothing more is known of the store. -/
theorem tending_attempt {a : Action α} {Q : α → Store → Prop}
    (h : Tending agree pending P a Q) :
    Tending agree pending P (attempt a) fun r s => ∀ x, r = .ok x → Q x s := by
  intro s r s' hs ht hp hrun
  cases hrun₁ : a.run s with
  | mk r₁ s₁ =>
    simp only [attempt, run_ofFun, hrun₁] at hrun
    cases hrun
    obtain ⟨hs', ht', hk, hq⟩ := h s r₁ _ hs ht hp hrun₁
    exact ⟨hs', ht', hk, fun r hr => Except.ok.inj hr ▸ hq⟩

theorem tending_forM {xs : List α} {f : α → Action Unit}
    (h : ∀ x ∈ xs, Tending agree pending P (f x) fun _ => P) :
    Tending agree pending P (xs.forM f) fun _ => P := by
  induction xs with
  | nil => exact tending_pure (Q := fun _ => P) fun _ hp => hp
  | cons x rest ih =>
    change Tending agree pending P (f x >>= fun _ => rest.forM f) _
    exact tending_bind (h x List.mem_cons_self) fun _ =>
      ih fun y hy => h y (List.mem_cons_of_mem x hy)

theorem tending_foldlM {xs : List α} {f : β → α → Action β} {b : β}
    (h : ∀ b, ∀ x ∈ xs, Tending agree pending P (f b x) fun _ => P) :
    Tending agree pending P (xs.foldlM f b) fun _ => P := by
  induction xs generalizing b with
  | nil => exact tending_pure fun _ hp => hp
  | cons x rest ih =>
    rw [List.foldlM_cons]
    exact tending_bind (h b x List.mem_cons_self) fun _ =>
      ih fun b y hy => h b y (List.mem_cons_of_mem x hy)

/-- A loop that finds a live cell for every item. -/
theorem tending_mapM_cells {xs : List α} {f : α → Action CellId}
    (h : ∀ x ∈ xs, ∀ cs, Tending agree pending (AllLive cs) (f x) fun c => AllLive (c :: cs))
    (cs : List CellId) :
    Tending agree pending (AllLive cs) (xs.mapM f) fun found => AllLive (found ++ cs) := by
  induction xs generalizing cs with
  | nil => exact tending_pure fun _ hp => hp
  | cons x rest ih =>
    rw [List.mapM_cons]
    refine tending_bind (h x List.mem_cons_self cs) fun c => ?_
    refine tending_bind (ih (fun y hy => h y (List.mem_cons_of_mem x hy)) (c :: cs)) fun found => ?_
    refine tending_pure fun s hall c' hc' => hall c' ?_
    rw [List.cons_append, List.mem_cons, List.mem_append] at hc'
    rw [List.mem_append, List.mem_cons]
    rcases hc' with h | h | h
    · exact .inr (.inl h)
    · exact .inl h
    · exact .inr (.inr h)

/-! ## Changes of the store -/

/-- A change of attributes other than the time at which the vertex expires. -/
theorem tending_modifyData {c : CellId} {f : VertexData → VertexData} (hf : KeepsArcs f)
    (hdate : ∀ d, (f d).expires = d.expires) (hpre : FrameStable P) :
    Tending agree pending P (update (·.modifyData c f)) fun _ => P := by
  refine tending_ofFun fun s hs ht hp => ?_
  have hcalm : s.Calm (s.modifyData c f) :=
    calm_modifyData hf fun d _ he => (hdate d).symm.trans he
  refine ⟨(Step.attributes (W := fun _ => True) trivial hf).sound hs, ht.calm hcalm,
    hcalm.kept fun c' _ => (sameDates_modifyData s c hdate).expires c', fun _ _ => ?_⟩
  exact hpre _ _ (hf.sameFrame s c) hp

theorem tending_promote {c : CellId} (hpre : FrameStable P) :
    Tending agree pending P (update (·.modifyData c (·.promote who.now))) fun _ => P := by
  refine tending_modifyData (keepsArcs_promote who.now) (fun d => ?_) hpre
  rw [VertexData.promote]
  split <;> rfl

/-- A change of the locks. -/
theorem tends_locks {s : Store} (hs : s.Sound agree) (ht : s.Timely pending) (locks : LockTable) :
    Sound agree { s with locks } ∧ Timely pending { s with locks } ∧ s.Kept { s with locks } :=
  have hcalm : s.Calm { s with locks } := calm_of_cells rfl rfl rfl
  ⟨hs.withLocks locks, ht.calm hcalm, hcalm.kept fun _ _ => rfl⟩

theorem tending_acquire {c : CellId} {mode : LockMode} (hpre : FrameStable P) :
    Tending agree pending P (acquire who c mode) fun _ => P := by
  refine tending_ofFun fun s hs ht hp => ?_
  cases s.locks.acquire who.thread (s.lockItem c) mode with
  | error e => exact ⟨hs, ht, .refl s, fun _ hx => nomatch hx⟩
  | ok p =>
    obtain ⟨hs', ht', hk⟩ := tends_locks hs ht p.2
    exact ⟨hs', ht', hk, fun _ _ => hpre _ _ (sameFrame_locks s p.2) hp⟩

theorem tending_acquireMany {cells : List CellId} {mode : LockMode} (hpre : FrameStable P) :
    Tending agree pending P (acquireMany who cells mode) fun _ => P := by
  refine tending_ofFun fun s hs ht hp => ?_
  obtain ⟨hs', ht', hk⟩ := tends_locks hs ht
    (s.locks.acquireMany who.thread (cells.map s.lockItem) mode).2
  exact ⟨hs', ht', hk, fun _ _ => hpre _ _ (sameFrame_locks s _) hp⟩

theorem tends_drop {s : Store} (hs : s.Sound agree) (ht : s.Timely pending) (g : Guard) :
    (s.drop g).Sound agree ∧ (s.drop g).Timely pending ∧ s.Kept (s.drop g) :=
  ⟨sound_drop hs g, ht.calm (calm_drop s g), kept_drop s g⟩

theorem tends_dropAll {s : Store} (hs : s.Sound agree) (ht : s.Timely pending)
    (guards : List Guard) :
    (s.dropAll guards).Sound agree ∧ (s.dropAll guards).Timely pending ∧
      s.Kept (s.dropAll guards) := by
  induction guards generalizing s with
  | nil => exact ⟨hs, ht, .refl s⟩
  | cons g rest ih =>
    obtain ⟨hs₁, ht₁, hk₁⟩ := tends_drop hs ht g
    obtain ⟨hs₂, ht₂, hk₂⟩ := ih hs₁ ht₁
    exact ⟨hs₂, ht₂, hk₁.trans hk₂⟩

/-- A change of the store at the end, after success and failure alike. -/
theorem tending_ensuring {a : Action α} {f : Store → Store} {Q : α → Store → Prop}
    (h : Tending agree pending P a Q)
    (hf : ∀ s, s.Sound agree → s.Timely pending →
      (f s).Sound agree ∧ (f s).Timely pending ∧ s.Kept (f s)) :
    Tending agree pending P (ensuring a f) fun _ _ => True := by
  intro s r s' hs ht hp hrun
  cases hrun₁ : a.run s with
  | mk r₁ s₁ =>
    simp only [ensuring, run_ofFun, hrun₁] at hrun
    cases hrun
    obtain ⟨hs₁, ht₁, hk₁, _⟩ := h s _ _ hs ht hp hrun₁
    obtain ⟨hs₂, ht₂, hk₂⟩ := hf s₁ hs₁ ht₁
    exact ⟨hs₂, ht₂, hk₁.trans hk₂, fun _ _ => trivial⟩

theorem tending_holding {c : CellId} {mode : LockMode} {body : Action α} {Q : α → Store → Prop}
    (hpre : FrameStable P) (h : Tending agree pending P body Q) :
    Tending agree pending P (holding who c mode body) fun _ _ => True :=
  tending_bind (tending_acquire hpre) fun g => tending_ensuring h fun _ hs ht => tends_drop hs ht g

theorem tending_holdingMany {cells : List CellId} {mode : LockMode} {body : Action α}
    {Q : α → Store → Prop} (hpre : FrameStable P) (h : Tending agree pending P body Q) :
    Tending agree pending P (holdingMany who cells mode body) fun _ _ => True :=
  tending_bind (tending_acquireMany hpre) fun guards =>
    tending_ensuring h fun _ hs ht => tends_dropAll hs ht guards

/-! ## Finding and adding -/

theorem tending_lookup (cs : List CellId) {id : String} :
    Tending agree pending (AllLive cs) (read (·.lookup id)) fun found =>
      AllLive (found.toList ++ cs) := by
  refine tending_read fun s hs hl => ?_
  cases hlook : s.lookup id with
  | none => exact hl
  | some c => exact allLive_cons.2 ⟨(hs.placed.of_lookup hlook).1, hl⟩

theorem tending_find (cs : List CellId) {id : String} :
    Tending agree pending (AllLive cs) (find id) fun c => AllLive (c :: cs) := by
  refine tending_bind (tending_lookup cs) fun found => ?_
  cases found with
  | none => exact tending_fail
  | some c => exact tending_pure fun _ hl => hl

theorem tending_findOrAdd (cs : List CellId) {id : String} {manifestation : Manifestation} :
    Tending agree pending (AllLive cs) (findOrAdd who id manifestation) fun found =>
      AllLive (found.1 :: cs) := by
  refine tending_bind tending_read_any fun fault => ?_
  refine tending_bind tending_refuse fun _ => ?_
  refine tending_bind (M := fun found s => AllLive cs s ∧ s.lookupKey (.of id) = found)
    (tending_read fun s _ hl => ⟨hl, rfl⟩) fun found => ?_
  cases found with
  | some c =>
    refine tending_bind (tending_read (Q := fun _ => AllLive (c :: cs)) fun s hs hl => ?_)
      fun present => ?_
    · exact allLive_cons.2 ⟨hs.placed.live_of_lookup hl.2, hl.1⟩
    · split
      · exact tending_pure fun _ hl => hl
      · exact tending_fail
  | none =>
    refine tending_bind
      (M := fun c s => (AllLive cs s ∧ s.lookupKey (.of id) = none) ∧ s.cells.size = c)
      (tending_read fun s _ hl => ⟨hl, rfl⟩) fun c => ?_
    refine tending_bind (M := fun _ => AllLive (c :: cs)) (tending_ofFun fun s hs ht hl => ?_)
      fun _ => tending_pure fun _ hl => hl
    obtain ⟨⟨hl, hfresh⟩, rfl⟩ := hl
    have hlive : ∀ c, (s.addCell { id, key := .of id, data := .new manifestation who.now }).Live c ↔
        c = s.cells.size ∨ s.Live c := fun _ => live_addCell_iff rfl
    have hbare := bare_new manifestation who.now
    have hcalm : s.Calm (s.addCell { id, key := .of id, data := .new manifestation who.now }) :=
      calm_addCell hs hfresh rfl hbare rfl
    refine ⟨(Step.add (W := fun _ => True) hfresh rfl rfl hbare).sound hs, ht.calm hcalm,
      hcalm.kept fun c hc => ?_, fun _ _ => ?_⟩
    · rw [data, cell_addCell, if_neg (Nat.ne_of_lt hc)]
      rfl
    · exact allLive_cons.2 ⟨(hlive _).2 (.inl rfl), fun c hc => (hlive c).2 (.inr (hl c hc))⟩

/-- A label that has been encoded has the code. -/
theorem tending_encodeRelationship {label : String} (hpre : FrameStable P) :
    Tending agree pending P (encodeRelationship label) fun code s =>
      s.labels.relationships.decode? code = some label ∧ P s := by
  refine tending_ofFun fun s hs ht hp => ?_
  have hcalm : s.Calm { s with labels := (s.labels.encodeRelationship label).2 } :=
    calm_labels (fun hv => LabelTable.valid_encode hv label) (LabelTable.keeps_encode _ label)
  refine ⟨hs.withLabels _, ht.calm hcalm, hcalm.kept fun _ _ => rfl, fun code hcode =>
    ⟨?_, hpre s _ (sameFrame_of_cells rfl rfl) hp⟩⟩
  have hencoded : (s.labels.relationships.encode label).1 = some code := by
    cases hcoded : (s.labels.relationships.encode label).1 with
    | none =>
      simp only [Labels.encodeRelationship, hcoded] at hcode
      cases hcode
    | some code' =>
      simp only [Labels.encodeRelationship, hcoded] at hcode
      exact congrArg some (Except.ok.inj hcode)
  exact LabelTable.decode?_of_encode ht.labels hencoded

theorem tending_encodeType {label : String} (hpre : FrameStable P) :
    Tending agree pending P (encodeType label) fun _ => P := by
  refine tending_ofFun fun s hs ht hp => ?_
  have hcalm : s.Calm { s with labels := (s.labels.encodeType label).2 } :=
    calm_labels (fun hv => hv) (.refl _)
  exact ⟨hs.withLabels _, ht.calm hcalm, hcalm.kept fun _ _ => rfl, fun _ _ =>
    hpre s _ (sameFrame_of_cells rfl rfl) hp⟩

/-! ## Creating and opening -/

theorem tending_create (id : String) (type : Option String) :
    Tending agree pending (fun _ => True) (create who id type) fun _ _ => True := by
  unfold create
  refine tending_bind tending_checkWritable fun _ => ?_
  refine tending_bind (M := fun _ _ => True) ?_ fun code => ?_
  · cases type with
    | none => exact tending_pure fun _ _ => trivial
    | some label =>
      exact tending_bind (tending_encodeType frameStable_true) fun _ => tending_pure fun _ h => h
  refine tending_bind ((tending_findOrAdd []).weaken (fun _ _ => allLive_nil) fun _ _ _ => trivial)
    fun (c, isNew) => ?_
  refine tending_holding (Q := fun _ _ => True) frameStable_true ?_
  have htype : Tending agree pending (fun _ => True)
      (update (·.modifyData c fun d => { d with type := code })) fun _ _ => True :=
    tending_modifyData (fun _ => ⟨rfl, rfl, rfl, rfl, rfl⟩) (fun _ => rfl) frameStable_true
  -- what follows once the type is known not to clash
  have hend : ∀ d : VertexData, Tending agree pending (fun _ => True)
      (do
        if code.isSome then update (·.modifyData c fun d => { d with type := code })
        update (·.modifyData c (·.promote who.now))
        return if d.manifestation = .virtual then 1 else 0) fun _ _ => True := by
    intro d
    have hlast : Tending agree pending (fun _ => True)
        (do
          update (·.modifyData c (·.promote who.now))
          return if d.manifestation = .virtual then 1 else 0) fun _ _ => True :=
      tending_bind (tending_promote frameStable_true) fun _ => tending_pure fun _ h => h
    dsimp only
    split
    · exact tending_bind htype fun _ => hlast
    · exact hlast
  split
  · exact tending_bind htype fun _ => tending_pure fun _ h => h
  · refine tending_bind tending_read_any fun d => ?_
    dsimp only
    split
    · split
      · exact tending_bind tending_read_any fun _ => tending_bind tending_fail fun _ => hend d
      · exact hend d
    · exact hend d

theorem tending_acquireExisting (id : String) (mode : LockMode) :
    Tending agree pending (fun _ => True) (acquireExisting who id mode) fun _ _ => True :=
  tending_bind ((tending_find []).weaken (fun _ _ => allLive_nil) fun _ _ _ => trivial)
    fun _ => tending_acquire frameStable_true

theorem tending_openVertex (id : String) (mode : OpenMode) :
    Tending agree pending (fun _ => True) (openVertex who id mode) fun _ _ => True := by
  cases mode with
  | readonly => exact tending_acquireExisting id .readonly
  | append =>
    refine tending_bind tending_checkWritable fun _ => ?_
    refine tending_bind (tending_acquireExisting id .writable) fun g => ?_
    exact tending_bind (tending_promote frameStable_true) fun _ => tending_pure fun _ h => h
  | write =>
    refine tending_bind tending_checkWritable fun _ => ?_
    refine tending_bind ((tending_findOrAdd []).weaken (fun _ _ => allLive_nil)
      fun _ _ _ => trivial) fun (c, _) => ?_
    refine tending_bind (tending_acquire frameStable_true) fun g => ?_
    exact tending_bind (tending_promote frameStable_true) fun _ => tending_pure fun _ h => h

theorem tending_openAll (ids : List String) (mode : OpenMode) (lockMode : LockMode) :
    Tending agree pending (fun _ => True) (openAll who ids mode lockMode) fun _ _ => True := by
  have hcells : Tending agree pending (AllLive []) (cellsToOpen who ids mode) fun cells =>
      AllLive (cells ++ []) := by
    refine tending_mapM_cells (fun id _ cs => ?_) []
    cases mode with
    | write => exact tending_bind (tending_findOrAdd cs) fun found => tending_pure fun _ h => h
    | readonly => exact tending_find cs
    | append => exact tending_find cs
  refine tending_bind (hcells.weaken (fun _ _ => allLive_nil) fun _ _ _ => trivial) fun cells => ?_
  refine tending_bind (tending_acquireMany frameStable_true) fun new => ?_
  refine tending_bind (tending_forM fun c _ => ?_) fun _ => tending_pure fun _ h => h
  split
  · exact tending_promote frameStable_true
  · exact tending_pure fun _ h => h

theorem tending_openVertices (ids : List String) (mode : OpenMode) :
    Tending agree pending (fun _ => True) (openVertices who ids mode) fun _ _ => True := by
  unfold openVertices
  split
  next => exact tending_fail
  next =>
    cases mode with
    | readonly => exact tending_openAll ids .readonly .readonly
    | append =>
      exact tending_bind tending_checkWritable fun _ => tending_openAll ids .append .writable
    | write =>
      exact tending_bind tending_checkWritable fun _ => tending_openAll ids .write .writable

end Action

end Arcbase
