import Arcbase.Proofs.Action.Opening
import Arcbase.Store.Connect
set_option autoImplicit false

/-!
# Connecting is orderly

A connect holds all its endpoints writable before it writes any of them
(`orderly_connectWith`).  A terminal that was added for a request which then could not
hold it is taken out again by the same rules as any other orphan.
-/

namespace Arcbase

namespace Store

/-- Steps that leave the locks and the vertices alone. -/
structure Writing (W : CellId → Prop) (s s' : Store) : Prop where
  steps : Steps W s s'
  locks : s'.locks = s.locks
  frame : s.SameFrame s'

variable {W : CellId → Prop} {s s' : Store} {i t : CellId}

theorem Writing.refl (s : Store) : Writing W s s := ⟨.refl, rfl, .refl s⟩

theorem Writing.trans {s'' : Store} (h : Writing W s s') (h' : Writing W s' s'') :
    Writing W s s'' :=
  ⟨Relation.ReflTransGen.trans h.steps h'.steps, h'.locks.trans h.locks, h.frame.trans h'.frame⟩

theorem writing_modifyData {c : CellId} {f : VertexData → VertexData} (hW : W c)
    (hf : KeepsArcs f) : Writing W s (s.modifyData c f) :=
  ⟨.single (.attributes hW hf), rfl, hf.sameFrame s c⟩

theorem writing_scheduleAt (s : Store) (item : Expiring) (time : UInt32) :
    Writing W s (s.scheduleAt item time) :=
  ⟨.single (.schedule s _), rfl, sameFrame_of_cells rfl rfl⟩

theorem locks_putInward (s : Store) (t : CellId) (key : VertexKey) (arc : StoredArc)
    (isNew : Bool) : (s.putInward t key arc isNew).locks = s.locks := by
  unfold putInward
  split
  · rfl
  · split <;> rfl

theorem writing_putArc (hWi : W i) (hWt : W t) (hi : s.Live i) (ht : s.Live t)
    (relationship : LabelCode) (kind : ArcKind) (forwardOnly : Bool) (u : ArcUpdate)
    (now : UInt32) :
    Writing W s (s.putArc i t relationship kind forwardOnly u now).2 := by
  refine ⟨.single (.put hWi hWt hi ht ..), ?_, sameFrame_putArc ..⟩
  rw [putArc_snd]
  exact locks_putInward ..

/-- Both ends are touched, and what ends the arc is scheduled. -/
theorem writing_ending {s₂ : Store} (hWi : W i) (hWt : W t) (h : Writing W s s₂) (now : UInt32)
    (relationship : String) (ending : Option UInt32) :
    Writing W s
      (match ending with
        | some time =>
          ((s₂.modifyData i (·.touch now)).modifyData t (·.touch now)).scheduleAt
            (.arc (((s₂.modifyData i (·.touch now)).modifyData t (·.touch now)).cell i).id
              relationship
              (((s₂.modifyData i (·.touch now)).modifyData t (·.touch now)).cell t).id) time
        | none => (s₂.modifyData i (·.touch now)).modifyData t (·.touch now)) := by
  have htouched := (h.trans (writing_modifyData hWi (Action.keepsArcs_touch now))).trans
    (writing_modifyData hWt (Action.keepsArcs_touch now))
  cases ending with
  | none => exact htouched
  | some time => exact htouched.trans (writing_scheduleAt ..)

theorem writing_connectTo (hWi : W i) (hWt : W t) (hi : s.Live i) (ht : s.Live t) (now : UInt32)
    (r : ConnectRequest) (relationship : LabelCode) (u : ArcUpdate) :
    Writing W s (s.connectTo now r relationship u i t).2 := by
  cases hput : s.putArc i t relationship r.arc.kind r.arc.forwardOnly u now with
  | mk a s₁ =>
    obtain ⟨isNew, value⟩ := a
    have h₁ : Writing W s s₁ := by
      have h := writing_putArc hWi hWt hi ht relationship r.arc.kind r.arc.forwardOnly u now
      rwa [hput] at h
    simp only [connectTo, hput]
    cases r.lifespan with
    | none => exact writing_ending hWi hWt h₁ now _ _
    | some lifespan =>
      refine writing_ending hWi hWt (h₁.trans ?_) now _ (some (lifespanEnd now lifespan))
      exact writing_putArc hWi hWt (h₁.frame.live_iff.2 hi) (h₁.frame.live_iff.2 ht) ..

end Store

namespace Action

open Store

variable {agree : Agreement} {W : CellId → Prop} {G L : List Guard} {P : Store → Prop}
  {who : Caller}

theorem admitted_subset {s : Store} {r : ArcRequest} {relationship : LabelCode}
    {gate : Option Gate} {i : CellId} {terminals passing : List CellId}
    (h : admitted s r relationship gate i terminals = .ok passing) :
    ∀ t ∈ passing, t ∈ terminals := by
  simp only [admitted] at h
  split at h
  · cases h
  · cases h
    exact fun t ht => (List.mem_filter.1 ht).1

theorem orderly_connectHeld {i : CellId} {terminals : List CellId} (hWi : W i)
    (hWt : ∀ t ∈ terminals, W t) (r : ConnectRequest) (relationship : LabelCode) (u : ArcUpdate)
    (gate : Option Gate) :
    Orderly agree W G (AllLive (i :: terminals)) (connectHeld who r relationship u gate i terminals)
      fun _ _ => True := by
  have hstable := frameStable_allLive (i :: terminals)
  refine orderly_bind (orderly_read_any (f := id)) fun s => ?_
  refine orderly_bind (orderly_ofExcept (Q := fun passing s =>
    (∀ t ∈ passing, t ∈ terminals) ∧ AllLive (i :: terminals) s) ?_) fun passing => ?_
  · intro s' passing hl hadm
    refine ⟨?_, hl⟩
    cases ha : admitted s r.arc relationship gate i terminals with
    | error e =>
      rw [ha] at hadm
      cases hadm
    | ok passing' =>
      rw [ha] at hadm
      cases hadm
      exact admitted_subset ha
  · refine .intro (fun _ h => h.1) fun hsub => ?_
    refine orderly_bind ((turns_modifyData hWi (keepsArcs_promote who.now) hstable).weaken
      (fun _ h => h.2) fun _ _ h => h) fun _ => ?_
    refine (orderly_foldlM fun acc t ht => ?_).weaken (fun _ h => h) fun _ _ _ => trivial
    refine orderly_bind (M := fun _ => AllLive (i :: terminals)) (orderly_ofFun ?_) fun _ =>
      orderly_pure fun _ h => h
    intro s _ hl
    have hlive := allLive_cons.1 hl
    have hw := writing_connectTo hWi (hWt t (hsub t ht)) hlive.1 (hlive.2 t (hsub t ht)) who.now r
      relationship u
    exact ⟨hw.steps, hw.locks, fun _ _ => hstable _ _ hw.frame hl⟩

/-! ## Terminals -/

theorem orderly_terminalCells (initial : String) (i : CellId) (terminals : Terminals) :
    Orderly agree W G (AllLive [i]) (terminalCells who initial i terminals) fun found s =>
      AllLive (i :: found.1) s ∧ ∀ c ∈ found.2, c ∈ found.1 := by
  cases terminals with
  | one t =>
    unfold terminalCells
    dsimp only
    split
    · refine orderly_pure fun s hl => ⟨?_, fun c hc => absurd hc List.not_mem_nil⟩
      exact allLive_cons.2 ⟨hl i List.mem_cons_self, hl⟩
    · refine orderly_bind (orderly_findOrAdd [i]) fun (c, isNew) => orderly_pure fun s hl => ?_
      have hlive := allLive_cons.1 hl
      refine ⟨allLive_cons.2 ⟨hlive.2 i List.mem_cons_self,
        allLive_cons.2 ⟨hlive.1, allLive_nil⟩⟩, fun c' hc' => ?_⟩
      cases isNew with
      | true => exact hc'
      | false => exact absurd hc' List.not_mem_nil
  | list ids =>
    refine orderly_bind (orderly_mapM_cells (fun id _ cs => ?_) [i]) fun cells => ?_
    · refine orderly_bind (orderly_lookup cs) fun found => ?_
      cases found with
      | none => exact turns_fail
      | some c => exact orderly_pure fun _ h => h
    · refine orderly_pure fun s hl => ⟨?_, fun c hc => absurd hc List.not_mem_nil⟩
      exact allLive_cons.2 ⟨hl i (List.mem_append_right _ List.mem_cons_self),
        fun c hc => hl c (List.mem_append_left _ hc)⟩

/-- Giving a guard up, where all that is needed of the store lasts. -/
theorem turns_drop {g : Guard} (hW : g.hold = .writer → W g.item.slot)
    (hP : ∀ s s', s.Extends s' → P s → P s') :
    Turns agree W (g :: G) P (update (·.drop g)) (fun _ => G) L fun _ => P := by
  intro s r s' _ hg hp hrun
  cases hrun
  obtain ⟨st, hg'⟩ := drop_spec hg hW
  exact ⟨st, hg', hP _ _ (Steps.extends st) hp⟩

theorem orderly_collectUnheld (hW : Covers W who.thread G) (cells : List CellId) :
    Orderly agree W G (fun s => ∀ c ∈ cells, c < s.cells.size) (collectUnheld who cells)
      fun _ _ => True := by
  have hgrow : ∀ s s' : Store, s.Extends s' → (∀ c ∈ cells, c < s.cells.size) →
      ∀ c ∈ cells, c < s'.cells.size :=
    fun s s' he hc c hm => Nat.lt_of_lt_of_le (hc c hm) he.count
  refine (turns_forM fun c hc => ?_).weaken (fun _ h => h) fun _ _ _ => trivial
  refine .bind (turns_attempt (fun s => ∀ c ∈ cells, c < s.cells.size)
    (fun s s' h st => hgrow s s' (Steps.extends st) h)
    (turns_acquire hW (fun s h => h c hc) fun s s' hf h => hgrow s s' hf.extends h)) fun r => ?_
  cases r with
  | error e => exact orderly_pure fun _ h => h
  | ok g =>
    refine .intro (fun _ h => h.1) fun hgiven => ?_
    refine (turns_drop (P := fun s => ∀ c ∈ cells, c < s.cells.size) ?_ hgrow).weaken
      (fun _ h => h.2) fun _ _ h => h
    rw [hgiven.slot]
    exact hgiven.owned

/-! ## The whole request -/

theorem orderly_connectAs (hW : Covers W who.thread G) (r : ConnectRequest)
    (relationship : LabelCode) (u : ArcUpdate) (gate : Option Gate) :
    Orderly agree W G (fun _ => True) (connectAs who r relationship u gate) fun _ _ => True := by
  refine orderly_bind ((orderly_findOrAdd []).weaken (fun _ _ => allLive_nil) fun _ _ h => h)
    fun (i, _) => ?_
  refine orderly_bind (orderly_terminalCells r.initial i r.terminals) fun (terminals, added) => ?_
  have hmem : ∀ c, c ∈ i :: terminals.filter (· ≠ i) ↔ c ∈ i :: terminals := by
    intro c
    rw [List.mem_cons, List.mem_cons, List.mem_filter]
    by_cases hc : c = i <;> simp [hc]
  refine .intro (fun _ h => h.2) fun hadded => ?_
  refine Turns.weaken (P := AllLive (i :: terminals)) ?_ (fun _ h => h.1) fun _ _ h => h
  refine .bind (turns_attempt (fun s => ∀ c ∈ added, c < s.cells.size) ?_
    (turns_acquireMany hW (fun s hl c hc => (hl c ((hmem c).1 hc)).1)
      (frameStable_allLive _))) fun r => ?_
  · intro s s' hl st c hc
    exact Nat.lt_of_lt_of_le (hl c (List.mem_cons_of_mem i (hadded c hc))).1
      (Steps.extends st).count
  · cases r with
    | error e => exact orderly_bind (orderly_collectUnheld hW added) fun _ => turns_fail
    | ok new =>
      refine .intro (fun _ h => h.1) fun hgiven => ?_
      have hown : ∀ c ∈ i :: terminals, W c := fun c hc => hgiven.owned ((hmem c).2 hc)
      have hheld : Orderly agree W (new ++ G) (AllLive (i :: terminals))
          (connectHeld who r relationship u gate i terminals) fun _ _ => True :=
        orderly_connectHeld (hown i List.mem_cons_self)
          (fun t ht => hown t (List.mem_cons_of_mem i ht)) r relationship u gate
      exact turns_ensuring new (fun g hm => (hgiven.each g hm).owned)
        (hheld.weaken (fun _ h => h.2) fun _ _ h => h)

theorem orderly_terminalIds (r : ConnectRequest) :
    Orderly agree W G (fun _ => True) (terminalIds r) fun _ _ => True := by
  unfold terminalIds
  split
  · exact orderly_pure fun _ h => h
  · exact orderly_bind orderly_read_any fun _ => orderly_bind orderly_refuse fun _ =>
      orderly_pure fun _ h => h

theorem orderly_connectWith (hW : Covers W who.thread G) (r : ConnectRequest) (u : ArcUpdate) :
    Orderly agree W G (fun _ => True) (connectWith who r u) fun _ _ => True := by
  unfold connectWith
  refine orderly_bind orderly_checkWritable fun _ => ?_
  refine orderly_bind orderly_read_any fun fault => orderly_bind orderly_refuse fun _ => ?_
  split
  · exact turns_fail
  · refine orderly_bind orderly_read_any fun condition => ?_
    refine orderly_bind (orderly_ofExcept (Q := fun _ _ => True) fun _ _ h _ => h) fun gate => ?_
    refine orderly_bind (orderly_terminalIds r) fun ids => ?_
    split
    · exact orderly_pure fun _ h => h
    · refine orderly_bind orderly_read_any fun fault => orderly_bind orderly_refuse fun _ => ?_
      refine orderly_bind (orderly_encodeRelationship frameStable_true) fun relationship => ?_
      exact orderly_connectAs hW r relationship u gate

theorem orderly_connect (hW : Covers W who.thread G) (r : ConnectRequest) :
    Orderly agree W G (fun _ => True) (connect who r) fun _ _ => True := by
  refine orderly_bind (orderly_ofExcept (Q := fun _ _ => True) fun _ _ h _ => h) fun u => ?_
  exact orderly_bind (orderly_connectWith hW r u) fun _ => orderly_pure fun _ h => h

theorem orderly_writeValue (hW : Covers W who.thread G) (r : ConnectRequest) (u : ArcUpdate)
    (fault : Error) :
    Orderly agree W G (fun _ => True)
      (do
        match (← connectWith who r u).2 with
        | some value => return value
        | none => fail fault) fun _ _ => True := by
  refine orderly_bind (orderly_connectWith hW r u) fun written => ?_
  split
  · exact orderly_pure fun _ h => h
  · exact turns_fail

theorem orderly_addTo (hW : Covers W who.thread G) (initial relationship terminal : String)
    (kind : ArcKind) (delta : Binary64) :
    Orderly agree W G (fun _ => True) (addTo who initial relationship terminal kind delta)
      fun _ _ => True := by
  unfold addTo
  dsimp only
  split
  · exact orderly_bind turns_fail fun _ => orderly_writeValue hW _ _ _
  · exact orderly_writeValue hW _ _ _

theorem orderly_count (hW : Covers W who.thread G) (initial relationship terminal : String)
    (delta : Option Int) :
    Orderly agree W G (fun _ => True) (count who initial relationship terminal delta)
      fun _ _ => True :=
  orderly_bind (orderly_addTo hW _ _ _ _ _) fun _ => orderly_pure fun _ h => h

theorem orderly_accumulate (hW : Covers W who.thread G) (initial relationship terminal : String)
    (delta : Option Binary64) :
    Orderly agree W G (fun _ => True) (accumulate who initial relationship terminal delta)
      fun _ _ => True :=
  orderly_bind (orderly_addTo hW _ _ _ _ _) fun _ => orderly_pure fun _ h => h

end Action

end Arcbase
