import Arcbase.Proofs.Store.Guarded
set_option autoImplicit false

/-!
# Orderly actions

The guards that are held while an action runs are no part of its store.  An action
*turns* one list of guards into another if, on every sound store that accounts for the
first, it makes steps of the store that write only cells in a given set, and leaves a
store that accounts for the second; which one that is depends on whether it succeeds.
It is *orderly* if the list stays the same.

Here are the rules for sequences and loops, and for the changes of a store that leave
its locks alone.
-/

namespace Arcbase.Action

open Store

variable {α β : Type}

/-- On a store with the guards `H`, the action writes only cells in `W`, and the
guards are `K x` after the answer `x`, and `L` after a failure. -/
def Turns (agree : Agreement) (W : CellId → Prop) (H : List Guard) (P : Store → Prop)
    (a : Action α) (K : α → List Guard) (L : List Guard) (Q : α → Store → Prop) : Prop :=
  ∀ s r s', s.Sound agree → s.Guarded H → P s → a.run s = (r, s') →
    Steps W s s' ∧ match r with
      | .ok x => s'.Guarded (K x) ∧ Q x s'
      | .error _ => s'.Guarded L

/-- The action gives up all guards that it takes. -/
abbrev Orderly (agree : Agreement) (W : CellId → Prop) (G : List Guard) (P : Store → Prop)
    (a : Action α) (Q : α → Store → Prop) : Prop :=
  Turns agree W G P a (fun _ => G) G Q

variable {agree : Agreement} {W : CellId → Prop} {G H L : List Guard}
  {P P' : Store → Prop}

/-! ## Checking and finding -/

theorem run_checkWritable (s : Store) : checkWritable.run s =
    if s.locks.readonly = true then (.error (.access .readonlyGraph), s) else (.ok (), s) := by
  rw [checkWritable, run_ofFun, LockTable.checkWritable]
  split <;> rfl

theorem run_find (s : Store) (id : String) : (find id).run s =
    match s.lookup id with
    | some c => (.ok c, s)
    | none => (.error (.key (.missing id)), s) := by
  rw [find, run_bind, read, run_ofFun]
  cases s.lookup id <;> rfl

/-- What registering a vertex comes to: it is there, under its identifier, or it is new. -/
theorem run_findOrAdd {who : Caller} {id : String} {manifestation : Manifestation} {s s' : Store}
    {c : CellId}
    {isNew : Bool} (hrun : (findOrAdd who id manifestation).run s = (.ok (c, isNew), s')) :
    isNew = false ∧ s' = s ∧ s.lookupKey (.of id) = some c ∧ (s.cell c).id = id ∨
      isNew = true ∧ s.lookupKey (.of id) = none ∧ c = s.cells.size ∧
        s' = s.addCell { id, key := .of id, data := .new manifestation who.now } := by
  simp only [findOrAdd, run_bind, read, run_ofFun] at hrun
  cases hfault : s.identifierFault? id with
  | some fault =>
    rw [hfault] at hrun
    cases hrun
  | none =>
    rw [hfault] at hrun
    simp only [refuse, run_pure] at hrun
    cases hfound : s.lookupKey (.of id) with
    | none =>
      rw [hfound] at hrun
      cases hrun
      exact .inr ⟨rfl, rfl, rfl, rfl⟩
    | some c' =>
      rw [hfound] at hrun
      simp only [run_bind, run_ofFun] at hrun
      split at hrun
      next hid =>
        cases hrun
        exact .inl ⟨rfl, rfl, rfl, hid⟩
      next => cases hrun

/-! ## Sequences -/

theorem Turns.weaken {a : Action α} {K : α → List Guard} {Q Q' : α → Store → Prop}
    (h : Turns agree W H P a K L Q) (hpre : ∀ s, P' s → P s)
    (hpost : ∀ x s, Q x s → Q' x s) : Turns agree W H P' a K L Q' := by
  intro s r s' hs hg hp hrun
  obtain ⟨st, hr⟩ := h s r s' hs hg (hpre s hp) hrun
  refine ⟨st, ?_⟩
  cases r with
  | error e => exact hr
  | ok x => exact ⟨hr.1, hpost x s' hr.2⟩

/-- A fact about the store at the start may be used throughout. -/
theorem Turns.intro {a : Action α} {K : α → List Guard} {Q : α → Store → Prop} {fact : Prop}
    (hfact : ∀ s, P s → fact) (h : fact → Turns agree W H P a K L Q) :
    Turns agree W H P a K L Q :=
  fun s r s' hs hg hp hrun => h (hfact s hp) s r s' hs hg hp hrun

/-- What is known of the answer in two ways is known together. -/
theorem Turns.and {a : Action α} {K : α → List Guard} {Q Q' : α → Store → Prop}
    (h : Turns agree W H P a K L Q) (h' : Turns agree W H P a K L Q') :
    Turns agree W H P a K L fun x s => Q x s ∧ Q' x s := by
  intro s r s' hs hg hp hrun
  obtain ⟨st, hr⟩ := h s r s' hs hg hp hrun
  obtain ⟨_, hr'⟩ := h' s r s' hs hg hp hrun
  refine ⟨st, ?_⟩
  cases r with
  | error e => exact hr
  | ok x => exact ⟨hr.1, hr.2, hr'.2⟩

/-- What holds of cells and goes on holding while others are added holds to the end. -/
theorem Turns.framed {a : Action α} {K : α → List Guard} {Q : α → Store → Prop}
    {R : Store → Prop} (h : Turns agree W H P a K L Q)
    (hR : ∀ s s', s.Extends s' → R s → R s') :
    Turns agree W H (fun s => P s ∧ R s) a K L fun x s => Q x s ∧ R s := by
  intro s r s' hs hg hp hrun
  obtain ⟨st, hr⟩ := h s r s' hs hg hp.1 hrun
  refine ⟨st, ?_⟩
  cases r with
  | error e => exact hr
  | ok x => exact ⟨hr.1, hr.2, hR s s' (Steps.extends st) hp.2⟩

theorem Turns.bind {a : Action α} {f : α → Action β} {M : α → Store → Prop}
    {K : α → List Guard} {K' : β → List Guard} {Q : β → Store → Prop}
    (ha : Turns agree W H P a K L M)
    (hf : ∀ x, Turns agree W (K x) (M x) (f x) K' L Q) :
    Turns agree W H P (a >>= f) K' L Q := by
  intro s r s' hs hg hp hrun
  rw [run_bind] at hrun
  cases hrun₁ : a.run s with
  | mk r₁ s₁ =>
    rw [hrun₁] at hrun
    obtain ⟨st₁, hr₁⟩ := ha s r₁ s₁ hs hg hp hrun₁
    cases r₁ with
    | error e =>
      cases hrun
      exact ⟨st₁, hr₁⟩
    | ok x =>
      obtain ⟨st₂, hr₂⟩ := hf x s₁ r s' (Steps.sound st₁ hs) hr₁.1 hr₁.2 hrun
      exact ⟨st₁.trans st₂, hr₂⟩

/-- The same where the guards stay. -/
theorem orderly_bind {a : Action α} {f : α → Action β} {M : α → Store → Prop}
    {K : β → List Guard} {Q : β → Store → Prop} (ha : Orderly agree W G P a M)
    (hf : ∀ x, Turns agree W G (M x) (f x) K G Q) :
    Turns agree W G P (a >>= f) K G Q := ha.bind hf

theorem turns_pure {x : α} {K : α → List Guard} {Q : α → Store → Prop}
    (h : ∀ s, P s → Q x s) : Turns agree W (K x) P (pure x) K L Q := by
  intro s r s' _ hg hp hrun
  cases hrun
  exact ⟨.refl, hg, h s hp⟩

theorem orderly_pure {x : α} {Q : α → Store → Prop} (h : ∀ s, P s → Q x s) :
    Orderly agree W G P (pure x) Q := turns_pure (K := fun _ => G) h

theorem orderly_read {f : Store → α} {Q : α → Store → Prop}
    (h : ∀ s, s.Sound agree → P s → Q (f s) s) : Orderly agree W G P (read f) Q := by
  intro s r s' hs hg hp hrun
  cases hrun
  exact ⟨.refl, hg, h s hs hp⟩

/-- Reading where nothing is made of what is read. -/
theorem orderly_read_any {f : Store → α} : Orderly agree W G P (read f) fun _ => P :=
  orderly_read fun _ _ hp => hp

theorem orderly_ofExcept {x : Except Error α} {Q : α → Store → Prop}
    (h : ∀ s y, P s → x = .ok y → Q y s) : Orderly agree W G P (ofExcept x) Q := by
  intro s r s' _ hg hp hrun
  cases hrun
  refine ⟨.refl, ?_⟩
  cases x with
  | error e => exact hg
  | ok y => exact ⟨hg, h s y hp rfl⟩

theorem turns_fail {e : Error} {K : α → List Guard} {Q : α → Store → Prop} :
    Turns agree W G P (fail e) K G Q := by
  intro s r s' _ hg _ hrun
  cases hrun
  exact ⟨.refl, hg⟩

theorem orderly_refuse {fault : Option VertexFault} :
    Orderly agree W G P (refuse fault) fun _ => P := by
  cases fault with
  | none => exact orderly_pure fun _ h => h
  | some f => exact turns_fail

theorem orderly_checkWritable : Orderly agree W G P checkWritable fun _ => P := by
  intro s r s' _ hg hp hrun
  cases hrun
  refine ⟨.refl, ?_⟩
  cases s.locks.checkWritable with
  | error e => exact hg
  | ok x => exact ⟨hg, hp⟩

/-- A change of the store that leaves the locks alone. -/
theorem orderly_ofFun {f : Store → Except Error α × Store} {Q : α → Store → Prop}
    (h : ∀ s, s.Sound agree → P s →
      Steps W s (f s).2 ∧ (f s).2.locks = s.locks ∧ ∀ x, (f s).1 = .ok x → Q x (f s).2) :
    Orderly agree W G P (ofFun f) Q := by
  intro s r s' hs hg hp hrun
  obtain ⟨st, hl, hpost⟩ := h s hs hp
  rw [run_ofFun] at hrun
  rw [hrun] at st hl hpost
  refine ⟨st, ?_⟩
  cases r with
  | error e => exact hg.steps st hl
  | ok x => exact ⟨hg.steps st hl, hpost x rfl⟩

/-- A change that cannot fail, so that it does not matter what a failure would leave. -/
theorem turns_update {f : Store → Store} {Q : Unit → Store → Prop}
    (h : ∀ s, s.Sound agree → P s →
      Steps W s (f s) ∧ (f s).locks = s.locks ∧ Q () (f s)) :
    Turns agree W G P (update f) (fun _ => G) L Q := by
  intro s r s' hs hg hp hrun
  obtain ⟨st, hl, hpost⟩ := h s hs hp
  cases hrun
  exact ⟨st, hg.steps st hl, hpost⟩

/-- A property of stores that depends only on which vertices there are. -/
def FrameStable (P : Store → Prop) : Prop := ∀ s s', s.SameFrame s' → P s → P s'

theorem frameStable_allLive (cs : List CellId) : FrameStable (AllLive cs) :=
  fun _ _ hf hl => hf.allLive hl

theorem frameStable_true : FrameStable fun _ => True := fun _ _ _ _ => trivial

/-- A change of attributes. -/
theorem turns_modifyData {c : CellId} {f : VertexData → VertexData} (hW : W c)
    (hf : KeepsArcs f) (hpre : FrameStable P) :
    Turns agree W G P (update (·.modifyData c f)) (fun _ => G) L fun _ => P :=
  turns_update fun s _ hp =>
    ⟨.single (.attributes hW hf), rfl,
      hpre _ _ (hf.sameFrame s c) hp⟩

theorem orderly_encodeRelationship {label : String}
    (hpre : FrameStable P) :
    Orderly agree W G P (encodeRelationship label) fun _ => P :=
  orderly_ofFun fun s _ hp =>
    ⟨.single (.labels s _), rfl, fun _ _ => hpre s _ (sameFrame_of_cells rfl rfl) hp⟩

theorem orderly_encodeType {label : String} (hpre : FrameStable P) :
    Orderly agree W G P (encodeType label) fun _ => P :=
  orderly_ofFun fun s _ hp =>
    ⟨.single (.labels s _), rfl, fun _ _ => hpre s _ (sameFrame_of_cells rfl rfl) hp⟩

/-- After a failed attempt no more is known of the store than what the steps that
were made keep. -/
theorem turns_attempt {a : Action α} {K : α → List Guard} {Q : α → Store → Prop}
    {L' : List Guard} (E : Store → Prop) (hE : ∀ s s', P s → Steps W s s' → E s')
    (h : Turns agree W H P a K L Q) :
    Turns agree W H P (attempt a)
      (fun r => match r with
        | .ok x => K x
        | .error _ => L) L'
      fun r s => match r with
        | .ok x => Q x s
        | .error _ => E s := by
  intro s r s' hs hg hp hrun
  cases hrun₁ : a.run s with
  | mk r₁ s₁ =>
    simp only [attempt, run_ofFun, hrun₁] at hrun
    cases hrun
    obtain ⟨st, hr⟩ := h s r₁ _ hs hg hp hrun₁
    refine ⟨st, ?_⟩
    cases r₁ with
    | error e => exact ⟨hr, hE s _ hp st⟩
    | ok x => exact hr

/-! ## Loops -/

theorem turns_forM {xs : List α} {f : α → Action Unit}
    (h : ∀ x ∈ xs, Turns agree W G P (f x) (fun _ => G) L fun _ => P) :
    Turns agree W G P (xs.forM f) (fun _ => G) L fun _ => P := by
  induction xs with
  | nil => exact turns_pure (K := fun _ => G) (Q := fun _ => P) fun _ hp => hp
  | cons x rest ih =>
    change Turns agree W G P (f x >>= fun _ => rest.forM f) _ _ _
    exact .bind (h x List.mem_cons_self) fun _ =>
      ih fun y hy => h y (List.mem_cons_of_mem x hy)

theorem orderly_foldlM {xs : List α} {f : β → α → Action β} {b : β}
    (h : ∀ b, ∀ x ∈ xs, Orderly agree W G P (f b x) fun _ => P) :
    Orderly agree W G P (xs.foldlM f b) fun _ => P := by
  induction xs generalizing b with
  | nil => exact orderly_pure fun _ hp => hp
  | cons x rest ih =>
    rw [List.foldlM_cons]
    exact .bind (h b x List.mem_cons_self) fun _ =>
      ih fun b y hy => h b y (List.mem_cons_of_mem x hy)

/-- A loop that finds a live cell for every item. -/
theorem orderly_mapM_cells {xs : List α} {f : α → Action CellId}
    (h : ∀ x ∈ xs, ∀ cs, Orderly agree W G (AllLive cs) (f x) fun c => AllLive (c :: cs))
    (cs : List CellId) :
    Orderly agree W G (AllLive cs) (xs.mapM f) fun found => AllLive (found ++ cs) := by
  induction xs generalizing cs with
  | nil => exact orderly_pure fun _ hp => hp
  | cons x rest ih =>
    rw [List.mapM_cons]
    refine .bind (h x List.mem_cons_self cs) fun c => ?_
    refine .bind (ih (fun y hy => h y (List.mem_cons_of_mem x hy)) (c :: cs)) fun found => ?_
    refine orderly_pure fun s hall c' hc' => ?_
    rw [List.cons_append, List.mem_cons, List.mem_append] at hc'
    refine hall c' ?_
    rw [List.mem_append, List.mem_cons]
    rcases hc' with h | h | h
    · exact .inr (.inl h)
    · exact .inl h
    · exact .inr (.inr h)

end Arcbase.Action
