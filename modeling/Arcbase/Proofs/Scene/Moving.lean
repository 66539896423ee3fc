import Arcbase.Proofs.Scene.Vertices
set_option autoImplicit false

/-!
# Actions that make moves

An action *moves* a graph in use from one scene to another (`Moving`): on every sound store
that accounts for the guards it makes nothing but moves, may write arcs only on the way to
certain answers, and writes none if it fails.  It is *steady* if the guards stay the same.

Here are the rules for sequences and loops, for holding vertices, and for finding and
registering them.  What only reads is steady.
-/

namespace Arcbase

open Store

/-- The guards on a graph, and its loose vertices. -/
structure Grip where
  guards : List Guard
  loose : List CellId := []

def Grip.on (H : Grip) (s : Store) : Scene := ⟨H.guards, H.loose, s⟩

namespace Action

variable {α β : Type} {agree : Agreement} {D D' : String → Prop} {G new : List Guard}
  {F : List CellId} {H L : Grip} {P P' : Store → Prop} {who : Caller}

/-- From the grip `H` the action makes moves to the grip `K x` and the answer `x`, for which
it may write arcs if `A x`; or it fails with the grip `L`, and has written none. -/
def Moving (agree : Agreement) (D : String → Prop) (H : Grip) (P : Store → Prop)
    (a : Action α) (A : α → Prop) (K : α → Grip) (L : Grip) (Q : α → Store → Prop) : Prop :=
  ∀ s r s', s.Sound agree → s.Guarded H.guards → P s → a.run s = (r, s') →
    match r with
    | .ok x => Moves D (A x) (H.on s) ((K x).on s') ∧ Q x s'
    | .error _ => Moves D False (H.on s) (L.on s')

/-- The action gives up all guards that it takes. -/
abbrev Steady (agree : Agreement) (D : String → Prop) (G : List Guard) (P : Store → Prop)
    (a : Action α) (A : α → Prop) (Q : α → Store → Prop) : Prop :=
  Moving agree D ⟨G, []⟩ P a A (fun _ => ⟨G, []⟩) ⟨G, []⟩ Q

/-! ## Sequences -/

theorem Moving.weaken {a : Action α} {A A' : α → Prop} {K : α → Grip} {Q Q' : α → Store → Prop}
    (h : Moving agree D H P a A K L Q) (hpre : ∀ s, P' s → P s) (hA : ∀ x, A x → A' x)
    (hpost : ∀ x s, Q x s → Q' x s) : Moving agree D H P' a A' K L Q' := by
  intro s r s' hs hg hp hrun
  have hr := h s r s' hs hg (hpre s hp) hrun
  cases r with
  | error e => exact hr
  | ok x => exact ⟨hr.1.mono (fun _ => id) (hA x), hpost x s' hr.2⟩

/-- A fact about the store at the start may be used throughout. -/
theorem Moving.intro {a : Action α} {A : α → Prop} {K : α → Grip} {Q : α → Store → Prop}
    {fact : Prop} (hfact : ∀ s, P s → fact) (h : fact → Moving agree D H P a A K L Q) :
    Moving agree D H P a A K L Q :=
  fun s r s' hs hg hp hrun => h (hfact s hp) s r s' hs hg hp hrun

/-- What is kept while labels are added is still so at the end. -/
theorem Moving.frame {a : Action α} {A : α → Prop} {K : α → Grip} {Q : α → Store → Prop}
    {R : Store → Prop} (hR : ∀ s s', s.labels.Grows s'.labels → R s → R s')
    (h : Moving agree D H P a A K L Q) :
    Moving agree D H (fun s => R s ∧ P s) a A K L fun x s => R s ∧ Q x s := by
  intro s r s' hs hg hp hrun
  have hr := h s r s' hs hg hp.2 hrun
  cases r with
  | error e => exact hr
  | ok x => exact ⟨hr.1, hR _ _ (Moves.grows hr.1) hp.1, hr.2⟩

/-- What comes before may write no arcs, so that none are written if the rest fails. -/
theorem Moving.bind {a : Action α} {f : α → Action β} {M : α → Store → Prop} {K : α → Grip}
    {A : β → Prop} {K' : β → Grip} {Q : β → Store → Prop}
    (ha : Moving agree D H P a (fun _ => False) K L M)
    (hf : ∀ x, Moving agree D (K x) (M x) (f x) A K' L Q) :
    Moving agree D H P (a >>= f) A K' L Q := by
  intro s r s' hs hg hp hrun
  rw [run_bind] at hrun
  cases hrun₁ : a.run s with
  | mk r₁ s₁ =>
    rw [hrun₁] at hrun
    have hr₁ := ha s r₁ s₁ hs hg hp hrun₁
    cases r₁ with
    | error e =>
      cases hrun
      exact hr₁
    | ok x =>
      have hordered := Moves.ordered hr₁.1 ⟨hs, hg⟩
      have hr₂ := hf x s₁ r s' hordered.sound hordered.guarded hr₁.2 hrun
      cases r with
      | error e => exact Relation.ReflTransGen.trans hr₁.1 hr₂
      | ok y => exact ⟨.trans (hr₁.1.mono (fun _ => id) False.elim) hr₂.1, hr₂.2⟩

/-- What is made of an answer in the end. -/
theorem Moving.map {a : Action α} {A : α → Prop} {K : α → Grip} {Q : α → Store → Prop}
    {f : α → β} {A' : β → Prop} {K' : β → Grip} {Q' : β → Store → Prop}
    (ha : Moving agree D H P a A K L Q) (hA : ∀ x, A x → A' (f x)) (hK : ∀ x, K x = K' (f x))
    (hQ : ∀ x s, Q x s → Q' (f x) s) :
    Moving agree D H P (a >>= fun x => pure (f x)) A' K' L Q' := by
  intro s r s' hs hg hp hrun
  rw [run_bind] at hrun
  cases hrun₁ : a.run s with
  | mk r₁ s₁ =>
    rw [hrun₁] at hrun
    have hr₁ := ha s r₁ s₁ hs hg hp hrun₁
    cases r₁ with
    | error e =>
      cases hrun
      exact hr₁
    | ok x =>
      cases hrun
      exact ⟨hK x ▸ hr₁.1.mono (fun _ => id) (hA x), hQ x _ hr₁.2⟩

theorem moving_pure {x : α} {A : α → Prop} {K : α → Grip} {Q : α → Store → Prop}
    (h : ∀ s, P s → Q x s) : Moving agree D (K x) P (pure x) A K L Q := by
  intro s r s' _ _ hp hrun
  cases hrun
  exact ⟨.refl, h s hp⟩

theorem steady_pure {x : α} {A : α → Prop} {Q : α → Store → Prop} (h : ∀ s, P s → Q x s) :
    Steady agree D G P (pure x) A Q := moving_pure (K := fun _ => ⟨G, []⟩) h

/-- What leaves the store as it is but for its locks, and gives the same guards up. -/
theorem Quiet.moving {a : Action α} {A : α → Prop} {Q : α → Store → Prop}
    (h : Quiet agree H.guards P a Q) : Moving agree D H P a A (fun _ => H) H Q := by
  intro s r s' hs hg hp hrun
  obtain ⟨hsame, _, hg', hq⟩ := h s r s' hs hg hp hrun
  have hmoves : ∀ B, Moves D B (H.on s) (H.on s') := fun B => by
    rw [hsame] at hg' ⊢
    exact Move.moves (.locks hg' (fun _ hw => hw) (fun g hm => .inr ⟨g, hm, rfl⟩)
      fun _ hc => .inl hc)
  cases r with
  | error e => exact hmoves False
  | ok x => exact ⟨hmoves _, hq x rfl⟩

theorem moving_read {f : Store → α} {A : α → Prop} {Q : α → Store → Prop}
    (h : ∀ s, s.Sound agree → P s → Q (f s) s) :
    Moving agree D H P (read f) A (fun _ => H) H Q := (quiet_read h).moving

theorem moving_read_any {f : Store → α} {A : α → Prop} :
    Moving agree D H P (read f) A (fun _ => H) H fun _ => P := moving_read fun _ _ hp => hp

theorem moving_fail {e : Error} {A : α → Prop} {K : α → Grip} {Q : α → Store → Prop} :
    Moving agree D H P (fail e) A K H Q := by
  intro s r s' _ _ _ hrun
  cases hrun
  exact .refl

theorem moving_ofExcept {x : Except Error α} {A : α → Prop} {Q : α → Store → Prop}
    (h : ∀ s y, P s → x = .ok y → Q y s) :
    Moving agree D H P (ofExcept x) A (fun _ => H) H Q := by
  cases x with
  | error e => exact moving_fail
  | ok y => exact moving_pure (K := fun _ => H) fun s hp => h s y hp rfl

theorem moving_refuse {fault : Option VertexFault} {A : Unit → Prop} :
    Moving agree D H P (refuse fault) A (fun _ => H) H fun _ s => P s ∧ fault = none := by
  cases fault with
  | none => exact moving_pure (K := fun _ => H) fun _ hp => ⟨hp, rfl⟩
  | some f => exact moving_fail

/-- Once the graph has been found to be writable it is so. -/
theorem moving_checkWritable {A : Unit → Prop} :
    Moving agree D H P checkWritable A (fun _ => H) H fun _ s =>
      P s ∧ s.locks.readonly = false := by
  intro s r s' _ _ hp hrun
  rw [run_checkWritable] at hrun
  split at hrun
  · cases hrun
    exact .refl
  next hdown =>
    cases hrun
    exact ⟨.refl, hp, by simpa using hdown⟩

/-- A change that cannot fail. -/
theorem moving_update {f : Store → Store} {A : Unit → Prop} {K : Unit → Grip}
    {Q : Unit → Store → Prop} (h : ∀ s, s.Sound agree → s.Guarded H.guards → P s →
      Moves D (A ()) (H.on s) ((K ()).on (f s)) ∧ Q () (f s)) :
    Moving agree D H P (update f) A K L Q := by
  intro s r s' hs hg hp hrun
  cases hrun
  exact h s hs hg hp

/-- A change of attributes that makes no vertex virtual. -/
theorem moving_attributes {c : CellId} {f : VertexData → VertexData} {A : Unit → Prop}
    (hf : KeepsArcs f)
    (rises : ∀ d, (f d).manifestation = d.manifestation ∨ (f d).manifestation = .real)
    (hP : FrameStable P) :
    Moving agree D H P (update (·.modifyData c f)) A (fun _ => H) L fun _ => P :=
  moving_update fun s _ _ hp => ⟨Move.moves (.attributes _ _ s c hf rises),
    hP _ _ (hf.sameFrame s c) hp⟩

theorem rises_promote (now : UInt32) (d : VertexData) :
    (d.promote now).manifestation = d.manifestation ∨ (d.promote now).manifestation = .real := by
  rw [VertexData.promote]
  split
  · exact .inr rfl
  · exact .inl rfl

theorem moving_promote {c : CellId} {A : Unit → Prop} (hP : FrameStable P) :
    Moving agree D H P (update (·.modifyData c (·.promote who.now))) A (fun _ => H) L fun _ => P :=
  moving_attributes (keepsArcs_promote who.now) (rises_promote who.now) hP

/-! ## Loops -/

theorem moving_forM {xs : List α} {f : α → Action Unit}
    (h : ∀ x ∈ xs, Moving agree D H P (f x) (fun _ => False) (fun _ => H) L fun _ => P) :
    Moving agree D H P (xs.forM f) (fun _ => False) (fun _ => H) L fun _ => P := by
  induction xs with
  | nil => exact moving_pure (K := fun _ => H) (Q := fun _ => P) fun _ hp => hp
  | cons x rest ih =>
    change Moving agree D H P (f x >>= fun _ => rest.forM f) _ _ _ _
    exact .bind (h x List.mem_cons_self) fun _ => ih fun y hy => h y (List.mem_cons_of_mem x hy)

/-- A loop that finds a live cell for every item. -/
theorem moving_mapM_cells {xs : List α} {f : α → Action CellId} {R : Store → Prop}
    (h : ∀ x ∈ xs, ∀ cs, Moving agree D H (fun s => R s ∧ AllLive cs s) (f x) (fun _ => False)
      (fun _ => H) H fun c s => R s ∧ AllLive (c :: cs) s) (cs : List CellId) :
    Moving agree D H (fun s => R s ∧ AllLive cs s) (xs.mapM f) (fun _ => False) (fun _ => H) H
      fun found s => R s ∧ AllLive (found ++ cs) s := by
  induction xs generalizing cs with
  | nil => exact moving_pure (K := fun _ => H) fun _ hp => hp
  | cons x rest ih =>
    rw [List.mapM_cons]
    refine .bind (h x List.mem_cons_self cs) fun c => ?_
    refine .bind (ih (fun y hy => h y (List.mem_cons_of_mem x hy)) (c :: cs)) fun found => ?_
    refine moving_pure (K := fun _ => H) fun s hp => ⟨hp.1, fun c' hc' => ?_⟩
    rw [List.cons_append, List.mem_cons, List.mem_append] at hc'
    refine hp.2 c' ?_
    rw [List.mem_append, List.mem_cons]
    rcases hc' with h | h | h
    · exact .inr (.inl h)
    · exact .inl h
    · exact .inr (.inr h)

/-! ## Holding -/

theorem covers_all (u : Thread) (G : List Guard) : Covers (fun _ => True) u G :=
  fun _ _ => trivial

/-- More guards are held than before, all on vertices that are there. -/
theorem move_acquire (new : List Guard) {s : Store} {locks : LockTable} {A : Prop}
    {F' : List CellId}
    (guarded : Guarded { s with locks } (new ++ G)) (live : ∀ g ∈ new, s.Live g.item.slot)
    (settled : ∀ c ∈ F, c ∈ F' ∨ Written new c) :
    Move D A ⟨G, F, s⟩ ⟨new ++ G, F', { s with locks }⟩ := by
  refine .locks guarded (fun c hw => hw.append new) (fun g hm => ?_) fun c hc => ?_
  · rcases List.mem_append.1 hm with hm | hm
    · exact .inl (live g hm)
    · exact .inr ⟨g, hm, rfl⟩
  · refine (settled c hc).imp_right fun ⟨g, hm, hwriter⟩ => ?_
    exact ⟨g, List.mem_append_left G hm, hwriter⟩

/-- The order of guards does not matter. -/
theorem move_perm {s : Store} {G' : List Guard} {A : Prop} (p : G.Perm G') (hg : s.Guarded G) :
    Move D A ⟨G, F, s⟩ ⟨G', F, s⟩ := by
  refine .locks (hg.perm p) (fun c hw => ?_) (fun g hm => ?_) fun _ hc => .inl hc
  · obtain ⟨g, hm, hwriter⟩ := hw
    exact ⟨g, p.mem_iff.1 hm, hwriter⟩
  · exact .inr ⟨g, p.mem_iff.2 hm, rfl⟩

theorem moving_acquire {c : CellId} {mode : LockMode} {A : Guard → Prop}
    (hc : ∀ s, P s → s.Live c) (hP : FrameStable P) :
    Moving agree D ⟨G, []⟩ P (acquire who c mode) A (fun g => ⟨g :: G, []⟩) ⟨G, []⟩
      fun g s => Given (fun _ => True) who mode c g ∧ P s := by
  intro s r s' hs hg hp hrun
  have hturn := (turns_acquire (covers_all who.thread G) (fun s hp => (hc s hp).1) hP s r s' hs hg
    hp hrun).2
  simp only [acquire, run_ofFun] at hrun
  cases hacq : s.locks.acquire who.thread (s.lockItem c) mode with
  | error e =>
    rw [hacq] at hrun
    cases hrun
    exact .refl
  | ok p =>
    rw [hacq] at hrun
    cases hrun
    refine ⟨Move.moves (move_acquire [p.1] hturn.1 (fun g hm => ?_) fun _ hc => ?_),
      hturn.2⟩
    · rw [List.mem_singleton.1 hm, hturn.2.1.slot]
      exact hc s hp
    · exact absurd hc List.not_mem_nil

theorem moving_acquireMany {cells : List CellId} {mode : LockMode} {A : List Guard → Prop}
    (hc : ∀ s, P s → ∀ c ∈ cells, s.Live c) (hP : FrameStable P) :
    Moving agree D ⟨G, []⟩ P (acquireMany who cells mode) A (fun new => ⟨new ++ G, []⟩) ⟨G, []⟩
      fun new s => GivenAll (fun _ => True) who mode cells new ∧ P s := by
  intro s r s' hs hg hp hrun
  have hturn := (turns_acquireMany (covers_all who.thread G) (fun s hp c hm => (hc s hp c hm).1) hP
    s r s' hs hg hp hrun).2
  simp only [acquireMany, run_ofFun] at hrun
  cases hrun
  cases hres : (s.locks.acquireMany who.thread (cells.map s.lockItem) mode).1 with
  | ok new =>
    rw [hres] at hturn
    refine ⟨Move.moves (move_acquire new hturn.1 (fun g hm => ?_) fun _ hc => ?_), hturn.2⟩
    · exact hc s hp _ (hturn.2.1.slots.mem_iff.2 (List.mem_map_of_mem hm))
    · exact absurd hc List.not_mem_nil
  | error e =>
    rw [hres] at hturn
    exact Move.moves (.locks hturn (fun _ hw => hw) (fun g hm => .inr ⟨g, hm, rfl⟩)
      fun _ hc => .inl hc)

theorem move_drop {s : Store} {g : Guard} {A : Prop} (hg : s.Guarded (g :: G)) :
    Move D A ⟨g :: G, F, s⟩ ⟨G, F, s.drop g⟩ := by
  have hdropped := (drop_spec (W := fun _ => True) hg fun _ => trivial).2
  rw [drop_eq_surrender] at hdropped ⊢
  exact .give hdropped fun _ hm => absurd hm List.not_mem_nil

theorem moves_dropAll {s : Store} {A : Prop} (hg : s.Guarded (new ++ G)) :
    Moves D A ⟨new ++ G, F, s⟩ ⟨G, F, s.dropAll new⟩ := by
  induction new generalizing s with
  | nil => exact .refl
  | cons g rest ih =>
    have hdropped := (drop_spec (W := fun _ => True) hg fun _ => trivial).2
    exact .head (move_drop hg) (ih hdropped)

/-- Guards that are given up whether the action succeeds or fails. -/
theorem moving_ensuring (new : List Guard) {a : Action α} {A : α → Prop} {Q : α → Store → Prop}
    (h : Steady agree D (new ++ G) P a A Q) :
    Moving agree D ⟨new ++ G, []⟩ P (ensuring a fun s => s.dropAll new) A (fun _ => ⟨G, []⟩)
      ⟨G, []⟩ fun _ _ => True := by
  intro s r s' hs hg hp hrun
  cases hrun₁ : a.run s with
  | mk r₁ s₁ =>
    simp only [ensuring, run_ofFun, hrun₁] at hrun
    cases hrun
    have hr := h s _ _ hs hg hp hrun₁
    cases r with
    | error e =>
      exact hr.trans (moves_dropAll (Moves.ordered hr ⟨hs, hg⟩).guarded)
    | ok x =>
      exact ⟨hr.1.trans (moves_dropAll (Moves.ordered hr.1 ⟨hs, hg⟩).guarded), trivial⟩

theorem steady_holding {c : CellId} {mode : LockMode} {body : Action α} {A : α → Prop}
    {Q : α → Store → Prop} (hc : ∀ s, P s → s.Live c) (hP : FrameStable P)
    (hbody : ∀ g, Given (fun _ => True) who mode c g → Steady agree D (g :: G) P body A Q) :
    Steady agree D G P (holding who c mode body) A fun _ _ => True := by
  refine .bind (moving_acquire hc hP) fun g => .intro (fun _ hp => hp.1) fun hgiven => ?_
  exact moving_ensuring [g]
    ((hbody g hgiven).weaken (fun _ hp => hp.2) (fun _ h => h) fun _ _ h => h)

/-! ## Finding and registering -/

/-- What depends on the locks and the label tables alone. -/
def Settings (R : Store → Prop) : Prop :=
  ∀ s s', s'.locks = s.locks → s'.labels = s.labels → R s → R s'

/-- A missing vertex is registered; a virtual one is loose then, and held by nobody. -/
theorem moving_findOrAdd {R : Store → Prop} (hR : Settings R) (cs : List CellId) {id : String}
    {manifestation : Manifestation} {A : CellId × Bool → Prop} :
    Moving agree D ⟨G, []⟩ (fun s => R s ∧ AllLive cs s) (findOrAdd who id manifestation) A
      (fun found => ⟨G, if found.2 = true ∧ manifestation = .virtual then [found.1] else []⟩)
      ⟨G, []⟩ fun found s => (R s ∧ AllLive (found.1 :: cs) s) ∧
        (found.2 = true → ∀ g ∈ G, g.item.slot ≠ found.1) := by
  intro s r s' hs hg ⟨hr, hl⟩ hrun
  simp only [findOrAdd, run_bind, read, run_ofFun] at hrun
  cases hfault : s.identifierFault? id with
  | some fault =>
    rw [hfault] at hrun
    cases hrun
    exact .refl
  | none =>
    rw [hfault] at hrun
    simp only [refuse, run_pure] at hrun
    cases hfound : s.lookupKey (.of id) with
    | some c =>
      simp only [hfound, run_bind, run_ofFun] at hrun
      split at hrun
      · cases hrun
        refine ⟨?_, ⟨hr, allLive_cons.2 ⟨hs.placed.live_of_lookup hfound, hl⟩⟩,
          fun h => absurd h Bool.false_ne_true⟩
        dsimp only
        rw [if_neg fun h => Bool.false_ne_true h.1]
      · cases hrun
        exact .refl
    | none =>
      simp only [hfound, run_bind, run_ofFun, update] at hrun
      cases hrun
      have hlive : ∀ c,
          (s.addCell { id, key := .of id, data := .new manifestation who.now }).Live c ↔
            c = s.cells.size ∨ s.Live c := fun _ => live_addCell_iff rfl
      refine ⟨?_, ⟨hR s _ rfl rfl hr, ?_⟩, fun _ g hm => Nat.ne_of_lt (hg.item g hm).1⟩
      · refine Move.moves (.add hfound rfl rfl (bare_new manifestation who.now) hfault (fun h => ?_)
          fun _ hc => absurd hc List.not_mem_nil)
        dsimp only
        rw [if_pos ⟨rfl, h⟩]
        exact List.mem_cons_self
      · exact allLive_cons.2 ⟨(hlive _).2 (.inl rfl), fun c hc => (hlive c).2 (.inr (hl c hc))⟩

theorem steady_findOrAdd_real {R : Store → Prop} (hR : Settings R) (cs : List CellId)
    {id : String} {A : CellId × Bool → Prop} :
    Steady agree D G (fun s => R s ∧ AllLive cs s) (findOrAdd who id .real) A fun found s =>
      R s ∧ AllLive (found.1 :: cs) s := by
  have h : Moving agree D ⟨G, []⟩ _ (findOrAdd who id .real) A _ _ _ := moving_findOrAdd hR cs
  have hgrip : (fun found : CellId × Bool => (⟨G, if found.2 = true ∧ Manifestation.real = .virtual
      then [found.1] else []⟩ : Grip)) = fun _ => ⟨G, []⟩ := by
    funext found
    rw [if_neg fun h => nomatch h.2]
  rw [hgrip] at h
  exact h.weaken (fun _ hp => hp) (fun _ h => h) fun _ _ hq => hq.1

theorem settings_true : Settings fun _ => True := fun _ _ _ _ _ => trivial

theorem steady_find (cs : List CellId) {id : String} {A : CellId → Prop} :
    Steady agree D G (AllLive cs) (find id) A fun c => AllLive (c :: cs) := (quiet_find cs).moving

theorem steady_lookup {R : Store → Prop} (cs : List CellId) {id : String}
    {A : Option CellId → Prop} :
    Steady agree D G (fun s => R s ∧ AllLive cs s) (read (·.lookup id)) A fun found s =>
      R s ∧ AllLive (found.toList ++ cs) s := by
  refine moving_read fun s hs hp => ⟨hp.1, ?_⟩
  cases hfound : s.lookup id with
  | none => exact hp.2
  | some c => exact allLive_cons.2 ⟨(hs.placed.of_lookup hfound).1, hp.2⟩

theorem steady_encodeType {label : String} {A : LabelCode → Prop} (hP : FrameStable P) :
    Steady agree D G P (encodeType label) A fun _ => P := by
  intro s r s' _ _ hp hrun
  have hmoves : ∀ B,
      Moves D B ⟨G, [], s⟩ ⟨G, [], { s with labels := (s.labels.encodeType label).2 }⟩ :=
    fun B => Move.moves (.labels _ _ _ (.type .refl label))
  have hstore : s' = { s with labels := (s.labels.encodeType label).2 } :=
    (congrArg Prod.snd hrun).symm
  subst hstore
  cases r with
  | error e => exact hmoves False
  | ok code => exact ⟨hmoves _, hP s _ (sameFrame_of_cells rfl rfl) hp⟩

/-- The code that a relationship is given stands for it. -/
theorem steady_encodeRelationship {label : String} {A : LabelCode → Prop} :
    Steady agree D G (fun s => s.labels.relationships.Valid ∧ s.locks.readonly = false)
      (encodeRelationship label) A fun code s =>
        s.locks.readonly = false ∧ ∃ label, s.labels.relationships.decode? code = some label := by
  intro s r s' _ _ hp hrun
  have hmoves : ∀ B, Moves D B ⟨G, [], s⟩
      ⟨G, [], { s with labels := (s.labels.encodeRelationship label).2 }⟩ :=
    fun B => Move.moves (.labels _ _ _ (.relationship .refl label))
  have hstore : s' = { s with labels := (s.labels.encodeRelationship label).2 } :=
    (congrArg Prod.snd hrun).symm
  have hanswer : r = (s.labels.encodeRelationship label).1 := (congrArg Prod.fst hrun).symm
  subst hstore
  cases r with
  | error e => exact hmoves False
  | ok code =>
    refine ⟨hmoves _, hp.2, label, LabelTable.decode?_of_encode hp.1 ?_⟩
    cases hcoded : (s.labels.relationships.encode label).1 with
    | none => simp [Labels.encodeRelationship, hcoded] at hanswer
    | some code' => simpa [Labels.encodeRelationship, hcoded] using hanswer.symm

end Action

end Arcbase
