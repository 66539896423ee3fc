import Arcbase.Proofs.Action.Retrying
import Arcbase.Proofs.Scene.Opening
set_option autoImplicit false

/-!
# The moves of connecting

A connect writes to terminals that take its arcs, from an initial that has become real
(`Ready`), and it has written something if it answers with a value (`steady_connectWith`).
A terminal that is registered on the way is loose until it is held; if it cannot be held
it is held once more by itself, and given up.
-/

namespace Arcbase

namespace Store

/-- A store in which arcs may be written from a vertex to others. -/
structure Ready (s : Store) (i : CellId) (relationship : LabelCode) (forwardOnly : Bool)
    (passing : List CellId) : Prop where
  initial : s.Real i
  terminals : ∀ t ∈ passing, s.Live t
  takes : ∀ t ∈ passing, s.Takes t forwardOnly
  named : ∃ label, s.labels.relationships.decode? relationship = some label

variable {agree : Agreement} {s : Store} {i t : CellId} {relationship : LabelCode}
  {kind : ArcKind} {forwardOnly : Bool} {passing : List CellId} {u : ArcUpdate} {now : UInt32}

theorem Takes.modifyData (h : s.Takes t forwardOnly) {f : VertexData → VertexData}
    (hf : KeepsArcs f) (c : CellId) : (s.modifyData c f).Takes t forwardOnly := by
  have hdata : ((s.modifyData c f).data t).inbound = (s.data t).inbound ∧
      ((s.modifyData c f).data t).forwardOnlyIn = (s.data t).forwardOnlyIn := by
    rw [data_modifyData_ite]
    split
    · exact ⟨(hf _).2.1, (hf _).2.2.1⟩
    · exact ⟨rfl, rfl⟩
  exact ⟨hdata.1 ▸ h.forward, hdata.2 ▸ h.regular⟩

/-- The store is ready once the initial has become real. -/
theorem ready_promote (live : s.Live i) (terminals : ∀ t ∈ passing, s.Live t)
    (takes : ∀ t ∈ passing, s.Takes t forwardOnly)
    (named : ∃ label, s.labels.relationships.decode? relationship = some label) :
    (s.modifyData i (·.promote now)).Ready i relationship forwardOnly passing := by
  have hkeeps := Action.keepsArcs_promote now
  have hframe : s.SameFrame (s.modifyData i (·.promote now)) :=
    hkeeps.sameFrame s i
  refine ⟨⟨hframe.live_iff.2 live, ?_⟩, fun t ht => hframe.live_iff.2 (terminals t ht),
    fun t ht => (takes t ht).modifyData hkeeps i, named⟩
  rw [data_modifyData live.1, if_pos rfl, VertexData.promote]
  split
  · rfl
  next hnot =>
    cases hm : (s.data i).manifestation with
    | real => rfl
    | virtual => exact absurd hm hnot

theorem Ready.touch (h : s.Ready i relationship forwardOnly passing) (c : CellId) :
    (s.modifyData c (·.touch now)).Ready i relationship forwardOnly passing := by
  have hkeeps := Action.keepsArcs_touch now
  have hframe : s.SameFrame (s.modifyData c (·.touch now)) :=
    hkeeps.sameFrame s c
  refine ⟨⟨hframe.live_iff.2 h.initial.live, ?_⟩, fun t ht => hframe.live_iff.2 (h.terminals t ht),
    fun t ht => (h.takes t ht).modifyData hkeeps c, h.named⟩
  rw [data_modifyData_ite]
  split <;> exact h.initial.manifestation

theorem Ready.putArc (h : s.Ready i relationship forwardOnly passing) (hs : s.Sound agree)
    (ht : t ∈ passing) :
    (s.putArc i t relationship kind forwardOnly u now).2.Ready i relationship forwardOnly
      passing := by
  have hi := h.initial.live
  have hframe := sameFrame_putArc (s := s) (i := i) (t := t) relationship kind forwardOnly u now
  refine ⟨⟨hframe.live_iff.2 hi, ?_⟩, fun t' ht' => hframe.live_iff.2 (h.terminals t' ht'),
    fun t' ht' => (h.takes t ht).putArc hs hi (h.terminals t ht) (h.takes t' ht'), ?_⟩
  · rw [data_putArc _ _ _ _ _ hi.1 (h.terminals t ht).1]
    exact h.initial.manifestation
  · rw [labels_putArc]
    exact h.named

theorem Ready.scheduleAt (h : s.Ready i relationship forwardOnly passing) (item : Expiring)
    (time : UInt32) : (s.scheduleAt item time).Ready i relationship forwardOnly passing :=
  ⟨h.initial, h.terminals, fun t ht => ⟨(h.takes t ht).forward, (h.takes t ht).regular⟩, h.named⟩

end Store

namespace Action

open Store

variable {agree : Agreement} {D : String → Prop} {G : List Guard} {who : Caller} {s : Store}
  {i t : CellId} {relationship : LabelCode} {passing : List CellId} {r : ConnectRequest}
  {u : ArcUpdate}

/-! ## Writing -/

theorem moves_put {kind : ArcKind} {forwardOnly : Bool} {now : UInt32}
    (h : s.Ready i relationship forwardOnly passing) (ht : t ∈ passing) (hu : u.Fits kind) :
    Moves D True ⟨G, [], s⟩ ⟨G, [], (s.putArc i t relationship kind forwardOnly u now).2⟩ :=
  Move.moves (.put now trivial h.initial.live (h.terminals t ht) h.initial.manifestation h.named hu
    (h.takes t ht))

/-- Both ends are touched, and what ends the arc is scheduled. -/
theorem moves_ending (ending : Option UInt32) {x : Scene} {now : UInt32}
    (m : Moves D True x ⟨G, [], s⟩) (h : s.Ready i relationship r.arc.forwardOnly passing) :
    let s₁ := (s.modifyData i (·.touch now)).modifyData t (·.touch now)
    let s₂ := match ending with
      | some time => s₁.scheduleAt (.arc (s₁.cell i).id r.arc.relationship (s₁.cell t).id) time
      | none => s₁
    Moves D True x ⟨G, [], s₂⟩ ∧ s₂.Ready i relationship r.arc.forwardOnly passing := by
  have hkeeps := keepsArcs_touch now
  have htouched := (m.tail (.attributes _ _ s i hkeeps fun _ => .inl rfl)).tail
    (.attributes _ _ _ t hkeeps fun _ => .inl rfl)
  have hready : ((s.modifyData i (·.touch now)).modifyData t (·.touch now)).Ready i relationship
      r.arc.forwardOnly passing := (h.touch i).touch t
  cases ending with
  | none => exact ⟨htouched, hready⟩
  | some time => exact ⟨htouched.tail (.schedule ..), hready.scheduleAt _ time⟩

theorem moves_connectTo {now : UInt32} (hs : s.Sound agree) (hg : s.Guarded G)
    (hu : u.Fits r.arc.kind)
    (h : s.Ready i relationship r.arc.forwardOnly passing) (ht : t ∈ passing) :
    Moves D True ⟨G, [], s⟩ ⟨G, [], (s.connectTo now r relationship u i t).2⟩ ∧
      (s.connectTo now r relationship u i t).2.Ready i relationship r.arc.forwardOnly passing := by
  cases hput : s.putArc i t relationship r.arc.kind r.arc.forwardOnly u now with
  | mk a s₁ =>
    obtain ⟨isNew, value⟩ := a
    have m₁ : Moves D True ⟨G, [], s⟩ ⟨G, [], s₁⟩ := by
      have m : Moves D True ⟨G, [], s⟩
          ⟨G, [], (s.putArc i t relationship r.arc.kind r.arc.forwardOnly u now).2⟩ :=
        moves_put h ht hu
      rwa [hput] at m
    have h₁ : s₁.Ready i relationship r.arc.forwardOnly passing := by
      have hr : (s.putArc i t relationship r.arc.kind r.arc.forwardOnly u now).2.Ready i
          relationship r.arc.forwardOnly passing := h.putArc hs ht
      rwa [hput] at hr
    have hs₁ : s₁.Sound agree := (Moves.ordered m₁ ⟨hs, hg⟩).sound
    simp only [connectTo, hput]
    cases r.lifespan with
    | none => exact moves_ending _ m₁ h₁
    | some lifespan =>
      refine moves_ending (some (lifespanEnd now lifespan)) (m₁.trans (moves_put h₁ ht ?_))
        (h₁.putArc hs₁ ht)
      exact ArcKind.allows_time rfl _

/-- All arcs of a request, written one after the other: there are none, or the last value is
in the answer. -/
theorem run_connectAll (hu : u.Fits r.arc.kind) {rest : List CellId}
    (hrest : ∀ t ∈ rest, t ∈ passing)
    {acc : Nat × Option ArcValue} {s : Store} (hs : s.Sound agree) (hg : s.Guarded G)
    (h : s.Ready i relationship r.arc.forwardOnly passing)
    {a : Except Error (Nat × Option ArcValue)} {s' : Store}
    (hrun : (rest.foldlM (fun (added, _) t => do
      let (isNew, value) ← ofFun fun s =>
        let (r, s) := s.connectTo who.now r relationship u i t
        (.ok r, s)
      return (if isNew then added + 1 else added, some value)) acc).run s = (a, s')) :
    ∃ x, a = .ok x ∧ (rest = [] ∧ x = acc ∧ s' = s ∨
      x.2.isSome = true ∧ Moves D True ⟨G, [], s⟩ ⟨G, [], s'⟩) := by
  induction rest generalizing acc s with
  | nil =>
    cases hrun
    exact ⟨acc, rfl, .inl ⟨rfl, rfl, rfl⟩⟩
  | cons t rest ih =>
    obtain ⟨m₁, h₁⟩ := moves_connectTo (D := D) hs hg hu h
      (hrest t List.mem_cons_self)
    have hordered := Moves.ordered m₁ ⟨hs, hg⟩
    rw [List.foldlM_cons, run_bind] at hrun
    obtain ⟨x, rfl, hx⟩ := ih (fun t' ht' => hrest t' (List.mem_cons_of_mem t ht')) hordered.sound
      hordered.guarded h₁ hrun
    refine ⟨x, rfl, .inr ?_⟩
    rcases hx with ⟨_, rfl, rfl⟩ | ⟨hsome, m₂⟩
    · exact ⟨rfl, m₁⟩
    · exact ⟨hsome, m₁.trans m₂⟩

/-- Whether an answer carries a value that has been written. -/
abbrev Wrote (x : Nat × Option ArcValue) : Prop := x.2.isSome = true

theorem takes_of_arcFault? {request : ArcRequest}
    (h : s.arcFault? request relationship i t = none) : s.Takes t request.forwardOnly := by
  simp only [arcFault?] at h
  split at h
  · cases h
  next hforward =>
    split at h
    · cases h
    next hregular =>
      refine ⟨fun hf => ?_, fun hf => ?_⟩
      · simpa [hf] using hforward
      · simpa [hf] using hregular

theorem of_admitted {request : ArcRequest} {gate : Option Gate} {terminals : List CellId}
    (h : admitted s request relationship gate i terminals = .ok passing) :
    ∀ t ∈ passing, t ∈ terminals ∧ s.Takes t request.forwardOnly := by
  intro t ht
  refine ⟨admitted_subset h t ht, ?_⟩
  simp only [admitted] at h
  split at h
  · cases h
  next hnone =>
    cases h
    exact takes_of_arcFault? (List.findSome?_eq_none_iff.1 hnone t ht)

/-- The tables have a label for the code. -/
abbrev Coded (relationship : LabelCode) (s : Store) : Prop :=
  ∃ label, s.labels.relationships.decode? relationship = some label

theorem steady_connectHeld {gate : Option Gate} {terminals : List CellId}
    (hu : u.Fits r.arc.kind) :
    Steady agree D G (fun s => Coded relationship s ∧ AllLive (i :: terminals) s)
      (connectHeld who r relationship u gate i terminals) Wrote fun _ _ => True := by
  unfold connectHeld
  refine .bind (moving_read (f := id) (Q := fun s₀ s =>
    s = s₀ ∧ Coded relationship s ∧ AllLive (i :: terminals) s)
    fun s _ hp => ⟨rfl, hp⟩) fun s₀ => ?_
  refine .bind (moving_ofExcept (Q := fun passing s => s.Live i ∧ (∀ t ∈ passing, s.Live t) ∧
    (∀ t ∈ passing, s.Takes t r.arc.forwardOnly) ∧ Coded relationship s) ?_) fun passing => ?_
  · rintro s passing ⟨rfl, hcoded, hl⟩ hadm
    have hpassing : ∀ t ∈ passing, t ∈ terminals ∧ s.Takes t r.arc.forwardOnly := by
      cases ha : admitted s r.arc relationship gate i terminals with
      | error e =>
        rw [ha] at hadm
        cases hadm
      | ok passing' =>
        rw [ha] at hadm
        cases hadm
        exact of_admitted ha
    exact ⟨hl i List.mem_cons_self, fun t ht => hl t (List.mem_cons_of_mem i (hpassing t ht).1),
      fun t ht => (hpassing t ht).2, hcoded⟩
  · refine .bind (K := fun _ => ⟨G, []⟩) (M := fun _ s =>
      s.Ready i relationship r.arc.forwardOnly passing)
      (moving_update fun s _ _ ⟨hi, hl, ht, hcoded⟩ => ?_) fun _ => ?_
    · exact ⟨Move.moves (.attributes _ _ s i (keepsArcs_promote who.now) (rises_promote who.now)),
        ready_promote hi hl ht hcoded⟩
    · intro s a s' hs hg hready hrun
      obtain ⟨x, rfl, hx⟩ := run_connectAll (D := D) hu (fun _ ht => ht) hs hg hready hrun
      refine ⟨?_, trivial⟩
      rcases hx with ⟨_, rfl, rfl⟩ | ⟨hsome, m⟩
      · exact .refl
      · exact m.mono (fun _ => id) fun _ => hsome

/-! ## Terminals -/

/-- Vertices that have just been registered, one at most, among those that are meant. -/
structure Added (G : List Guard) (terminals added : List CellId) : Prop where
  among : ∀ c ∈ added, c ∈ terminals
  unheld : ∀ c ∈ added, ∀ g ∈ G, g.item.slot ≠ c
  single : added = [] ∨ ∃ c, added = [c]

theorem added_nil (terminals : List CellId) : Added G terminals [] :=
  ⟨fun _ hc => absurd hc List.not_mem_nil, fun _ hc => absurd hc List.not_mem_nil, .inl rfl⟩

theorem moving_terminalCells {R : Store → Prop} (hR : Settings R) (initial : String) (i : CellId)
    (terminals : Terminals) :
    Moving agree D ⟨G, []⟩ (fun s => R s ∧ AllLive [i] s) (terminalCells who initial i terminals)
      Arcless (fun found => ⟨G, found.2⟩) ⟨G, []⟩ fun found s =>
        (R s ∧ AllLive (i :: found.1) s) ∧ Added G found.1 found.2 := by
  cases terminals with
  | one t =>
    unfold terminalCells
    dsimp only
    split
    · refine moving_pure (K := fun found : List CellId × List CellId => ⟨G, found.2⟩)
        fun s hp => ⟨⟨hp.1, ?_⟩, added_nil _⟩
      exact allLive_cons.2 ⟨hp.2 i List.mem_cons_self, hp.2⟩
    · refine .bind (moving_findOrAdd hR [i]) fun (c, isNew) => ?_
      have hlive : ∀ s, AllLive [c, i] s → AllLive [i, c] s := fun s hl => by
        have hboth := allLive_cons.1 hl
        exact allLive_cons.2 ⟨hboth.2 i List.mem_cons_self, allLive_cons.2 ⟨hboth.1, allLive_nil⟩⟩
      cases isNew with
      | false =>
        exact moving_pure (K := fun found : List CellId × List CellId => ⟨G, found.2⟩)
          fun s hp => ⟨⟨hp.1.1, hlive s hp.1.2⟩, added_nil _⟩
      | true =>
        refine moving_pure (K := fun found : List CellId × List CellId => ⟨G, found.2⟩)
          fun s hp => ⟨⟨hp.1.1, hlive s hp.1.2⟩, fun _ hc => hc, fun c' hc' => ?_, .inr ⟨c, rfl⟩⟩
        rw [List.mem_singleton.1 hc']
        exact hp.2 rfl
  | list ids =>
    refine .bind (moving_mapM_cells (R := R) (fun id _ cs => ?_) [i]) fun cells => ?_
    · refine .bind (steady_lookup cs) fun found => ?_
      cases found with
      | none => exact moving_fail
      | some c => exact steady_pure fun _ h => h
    · refine moving_pure (K := fun found : List CellId × List CellId => ⟨G, found.2⟩)
        fun s hp => ⟨⟨hp.1, ?_⟩, added_nil _⟩
      exact allLive_cons.2 ⟨hp.2 i (List.mem_append_right _ List.mem_cons_self),
        fun c hc => hp.2 c (List.mem_append_left _ hc)⟩

/-- All endpoints are held, or none; then loose ones stay so. -/
theorem moving_attemptMany {F cells : List CellId} (hF : ∀ c ∈ F, c ∈ cells) {P : Store → Prop}
    (hc : ∀ s, P s → ∀ c ∈ cells, s.Live c)
    (hP : ∀ s locks, s.locks.SameSettings locks → P s → P { s with locks }) {L : Grip} :
    Moving agree D ⟨G, F⟩ P (attempt (acquireMany who cells .writable)) Arcless
      (fun outcome => match outcome with
        | .ok new => ⟨new ++ G, []⟩
        | .error _ => ⟨G, F⟩) L fun _ => P := by
  intro s a s' hs hg hp hrun
  cases hacq : s.locks.acquireMany who.thread (cells.map s.lockItem) .writable with
  | mk outcome locks =>
    have hmany : (acquireMany who cells .writable).run s = (outcome, { s with locks }) := by
      simp only [acquireMany, run_ofFun, hacq]
    have hturn := (turns_acquireMany (covers_all who.thread G)
      (fun s (hl : AllLive cells s) c hm => (hl c hm).1) (frameStable_allLive cells) s _ _ hs hg
      (hc s hp) hmany).2
    have hp' := hP s locks (LockTable.acquireMany_spec hg.accounts hacq).1 hp
    simp only [attempt, run_ofFun, hmany] at hrun
    cases hrun
    refine ⟨Move.moves ?_, hp'⟩
    cases outcome with
    | error e =>
      exact .locks hturn (fun _ hw => hw) (fun g hm => .inr ⟨g, hm, rfl⟩) fun _ hc => .inl hc
    | ok new =>
      have hgiven := hturn.2.1
      refine move_acquire _ hturn.1 (fun g hm => ?_) fun c hm => .inr ?_
      · exact hc s hp _ (hgiven.slots.mem_iff.2 (List.mem_map_of_mem hm))
      · obtain ⟨g, hg, hslot⟩ := List.mem_map.1 (hgiven.slots.mem_iff.1 (hF c hm))
        exact ⟨g, hg, (hgiven.each g hg).writing rfl, hslot⟩

/-- Whoever could not be held with the others can be held alone, and is given up. -/
theorem moving_collectUnheld {terminals added : List CellId} (h : Added G terminals added) :
    Moving agree D ⟨G, added⟩ (fun s => s.locks.readonly = false ∧ AllLive terminals s)
      (collectUnheld who added) Arcless (fun _ => ⟨G, []⟩) ⟨G, []⟩ fun _ _ => True := by
  rcases h.single with rfl | ⟨c, rfl⟩
  · exact moving_pure (K := fun _ => ⟨G, []⟩) fun _ _ => trivial
  · intro s a s' hs hg ⟨hdown, hl⟩ hrun
    have hc : s.Live c := hl c (h.among c List.mem_cons_self)
    obtain ⟨⟨g, locks⟩, hacq⟩ := acquire_unguarded hg hdown (h.unheld c List.mem_cons_self)
      who.thread
    have hheld : (attempt (acquire who c .writable)).run s = (.ok (.ok g), { s with locks }) := by
      simp only [attempt, acquire, run_ofFun, hacq]
    have hstore : a = .ok () ∧ s' = ({ s with locks } : Store).drop g := by
      change ((attempt (acquire who c .writable) >>= _) >>= _).run s = _ at hrun
      rw [run_bind, run_bind, hheld] at hrun
      cases hrun
      exact ⟨rfl, rfl⟩
    obtain ⟨rfl, rfl⟩ := hstore
    obtain ⟨_, hitem, _⟩ := LockTable.acquire_ok hacq
    have hslot : g.item.slot = c := congrArg LockItem.slot hitem
    have hwriter : g.hold = .writer := (LockTable.open_of_acquire hg.accounts hacq).1
    have hg₁ : Guarded { s with locks } (g :: G) := hg.acquire hc.1 hacq
    have m : Move D False ⟨G, [c], s⟩ ⟨g :: G, [], { s with locks }⟩ := by
      refine move_acquire [g] hg₁ (fun g' hm => ?_) fun c' hc' => .inr ?_
      · rw [List.mem_singleton.1 hm, hslot]
        exact hc
      · rw [List.mem_singleton.1 hc']
        exact ⟨g, List.mem_cons_self, hwriter, hslot⟩
    exact ⟨m.moves.tail (move_drop hg₁), trivial⟩

/-! ## The whole request -/

theorem settings_coded (relationship : LabelCode) :
    Settings fun s => s.locks.readonly = false ∧ Coded relationship s :=
  fun _ _ hlocks hlabels h => ⟨hlocks ▸ h.1, by rw [Coded, hlabels]; exact h.2⟩

theorem steady_connectAs {gate : Option Gate} (hu : u.Fits r.arc.kind) :
    Steady agree D G (fun s => s.locks.readonly = false ∧ Coded relationship s)
      (connectAs who r relationship u gate) Wrote fun _ _ => True := by
  refine .bind ((steady_findOrAdd_real (settings_coded relationship) []).weaken
    (fun _ h => ⟨h, allLive_nil⟩) (fun _ h => h) fun _ _ h => h) fun (i, _) => ?_
  refine .bind (moving_terminalCells (settings_coded relationship) r.initial i r.terminals)
    fun (terminals, added) => .intro (fun _ h => h.2) fun hadded => ?_
  have hmem : ∀ c, c ∈ i :: terminals.filter (· ≠ i) ↔ c ∈ i :: terminals := by
    intro c
    rw [List.mem_cons, List.mem_cons, List.mem_filter]
    by_cases hc : c = i <;> simp [hc]
  refine .bind ((moving_attemptMany
    (P := fun s => (s.locks.readonly = false ∧ Coded relationship s) ∧ AllLive (i :: terminals) s)
    (fun c hc => (hmem c).2 (List.mem_cons_of_mem i (hadded.among c hc)))
    (fun s hp c hc => hp.2 c ((hmem c).1 hc)) fun s locks hsame hp => ?_).weaken (fun _ h => h.1)
    (fun _ h => h) fun _ _ h => h) fun outcome => ?_
  · exact ⟨⟨hsame.readonly.trans hp.1.1, hp.1.2⟩, hp.2⟩
  · cases outcome with
    | error e =>
      refine .bind ((moving_collectUnheld hadded).weaken (fun s h => ?_) (fun _ h => h)
        fun _ _ h => h) fun _ => moving_fail
      exact ⟨h.1.1, fun c hc => h.2 c (List.mem_cons_of_mem i hc)⟩
    | ok new =>
      exact moving_ensuring new ((steady_connectHeld hu).weaken (fun _ h => ⟨h.1.2, h.2⟩)
        (fun _ h => h) fun _ _ h => h)

theorem steady_terminalIds {P : Store → Prop} (r : ConnectRequest) :
    Steady agree D G P (terminalIds r) Arcless fun _ => P := by
  unfold terminalIds
  split
  · exact steady_pure fun _ h => h
  · exact .bind moving_read_any fun _ => .bind moving_refuse fun _ => steady_pure fun _ h => h.1

theorem steady_connectWith (hu : u.Fits r.arc.kind) :
    Steady agree D G (fun s => s.labels.relationships.Valid) (connectWith who r u) Wrote
      fun _ _ => True := by
  unfold connectWith
  refine .bind moving_checkWritable fun _ => ?_
  refine .bind moving_read_any fun fault => .bind moving_refuse fun _ => ?_
  split
  · exact moving_fail
  · refine .bind moving_read_any fun condition => ?_
    refine .bind (moving_ofExcept (Q := fun _ s =>
      s.labels.relationships.Valid ∧ s.locks.readonly = false) fun _ _ h _ => h.1) fun gate => ?_
    refine .bind (steady_terminalIds r) fun ids => ?_
    split
    · exact steady_pure fun _ _ => trivial
    · refine .bind moving_read_any fun fault => .bind moving_refuse fun _ => ?_
      refine .bind (steady_encodeRelationship.weaken (fun _ h => h.1) (fun _ h => h)
        fun _ _ h => h) fun relationship => ?_
      exact steady_connectAs hu

theorem steady_connect (r : ConnectRequest) :
    Steady agree D G (fun s => s.labels.relationships.Valid) (connect who r) (fun _ => True)
      fun _ _ => True := by
  refine .bind (moving_ofExcept (Q := fun u s =>
    u.Fits r.arc.kind ∧ s.labels.relationships.Valid) fun _ _ h hu => ?_) fun u => ?_
  · exact ⟨ArcUpdate.fits_ofRequest hu, h⟩
  · refine .intro (fun _ h => h.1) fun hu => ?_
    exact .map ((steady_connectWith hu).weaken (fun _ h => h.2) (fun _ h => h) fun _ _ h => h)
      (fun _ _ => trivial) (fun _ => rfl) fun _ _ h => h

/-- If there is no value to answer with, nothing has been written. -/
theorem steady_writeValue {fault : Error} (hu : u.Fits r.arc.kind) :
    Steady agree D G (fun s => s.labels.relationships.Valid)
      (do
        match (← connectWith who r u).2 with
        | some value => return value
        | none => fail fault) (fun _ => True) fun _ _ => True := by
  intro s a s' hs hg hp hrun
  rw [run_bind] at hrun
  cases hrun₁ : (connectWith who r u).run s with
  | mk outcome s₁ =>
    rw [hrun₁] at hrun
    have hmoves := steady_connectWith (D := D) hu s outcome s₁ hs hg hp hrun₁
    cases outcome with
    | error e =>
      cases hrun
      exact hmoves
    | ok x =>
      obtain ⟨n, value⟩ := x
      cases value with
      | some v =>
        cases hrun
        exact ⟨hmoves.1.mono (fun _ => id) fun _ => trivial, trivial⟩
      | none =>
        cases hrun
        exact hmoves.1.mono (fun _ => id) Bool.false_ne_true

theorem steady_addTo (initial relationship terminal : String) (kind : ArcKind)
    (delta : Binary64) :
    Steady agree D G (fun s => s.labels.relationships.Valid)
      (addTo who initial relationship terminal kind delta) (fun _ => True) fun _ _ => True := by
  unfold addTo
  dsimp only
  split
  · exact .bind moving_fail fun _ => steady_writeValue trivial
  · exact steady_writeValue trivial

theorem steady_count (initial relationship terminal : String) (delta : Option Int) :
    Steady agree D G (fun s => s.labels.relationships.Valid)
      (count who initial relationship terminal delta) (fun _ => True) fun _ _ => True :=
  .map (steady_addTo _ _ _ _ _) (fun _ _ => trivial) (fun _ => rfl) fun _ _ h => h

theorem steady_accumulate (initial relationship terminal : String) (delta : Option Binary64) :
    Steady agree D G (fun s => s.labels.relationships.Valid)
      (accumulate who initial relationship terminal delta) (fun _ => True) fun _ _ => True :=
  .map (steady_addTo _ _ _ _ _) (fun _ _ => trivial) (fun _ => rfl) fun _ _ h => h

/-! ## Marking -/

theorem steady_markExpiring (id : String) (time : UInt32) :
    Steady agree D G (fun _ => True) (markExpiring who id time) Arcless fun _ _ => True := by
  unfold markExpiring
  refine .bind (moving_checkWritable.weaken (fun _ h => h) (fun _ h => h) fun _ _ h => h.1)
    fun _ => ?_
  exact .bind (moving_acquireExisting id) fun g => moving_ensuring [g] (steady_setExpiration time)

theorem steady_markArcExpiring (initial relationship terminal : String) (time : UInt32) :
    Steady agree D G (fun s => s.labels.relationships.Valid)
      (markArcExpiring who initial relationship terminal time) (fun _ => True)
      fun _ _ => True := by
  unfold markArcExpiring
  refine .bind (moving_checkWritable.weaken (fun _ h => h) (fun _ h => h) fun _ _ h => h.1)
    fun _ => ?_
  refine .bind moving_read_any fun filter => ?_
  refine .bind (moving_ofExcept (Q := fun _ s => s.labels.relationships.Valid ∧ AllLive [] s)
    fun _ _ h _ => ⟨h, allLive_nil⟩) fun filter => ?_
  refine .bind (steady_lookup []) fun i => .bind (steady_lookup _) fun t => ?_
  split
  next i t =>
    have hcells : ∀ c ∈ (if i = t then [i] else [i, t]), c ∈ [t, i] := by
      intro c hc
      split at hc
      · exact List.mem_cons_of_mem t hc
      · exact (List.Perm.swap t i []).mem_iff.1 hc
    refine .bind ((moving_acquireMany (P := AllLive [t, i]) (fun s hl c hc => hl c (hcells c hc))
      (frameStable_allLive _)).frame fun _ _ hgrows hv => hgrows.valid hv) fun new => ?_
    refine moving_ensuring new (Q := fun _ _ => True)
      (.bind (M := fun _ s => s.labels.relationships.Valid)
      (moving_read fun _ _ h => h.1) fun present => ?_)
    split
    · exact .map (steady_connect _) (fun _ _ => trivial) (fun _ => rfl) fun _ _ h => h
    · exact moving_fail
  next => exact moving_fail

end Action

end Arcbase
