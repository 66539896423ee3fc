import Arcbase.Proofs.Action.Tending
set_option autoImplicit false

/-!
# Connecting loses no expiration

An arc that carries a time always carries an unsigned number, whatever wrote it
(`ArcUpdate.apply_timeExpires`).  A connect schedules that number for the relationship as
soon as it is written, the end of a lifespan like the value of an arc of that kind
(`tends_connectTo`).
-/

namespace Arcbase

namespace ArcUpdate

variable {u : ArcUpdate}

/-- What is written outright into an arc that carries a time is a time. -/
def Timed (u : ArcUpdate) (kind : ArcKind) : Prop :=
  ∀ value, u = .set (some value) → kind = .timeExpires → ∃ time, value = .unsigned time

theorem timed_add (delta : Binary64) (kind : ArcKind) : (add delta).Timed kind :=
  fun _ h => nomatch h

theorem store_of_coerce {kind : ArcKind} {raw : Binary64} {value : ArcValue}
    (h : kind.coerce raw = .ok value) : value = kind.store raw := by
  simp only [ArcKind.coerce] at h
  split at h
  · cases h
  · split at h
    · cases h
    · exact (Except.ok.inj h).symm

theorem timed_ofRequest {r : ArcRequest} (h : ofRequest r = .ok u) : u.Timed r.kind := by
  rintro value rfl hkind
  have hnot : ArcKind.timeExpires.isAccumulating = false := rfl
  cases hraw : r.value with
  | none =>
    simp [ofRequest, hraw, hkind, hnot, bind, pure, Except.bind, Except.pure, throw,
      throwThe, MonadExceptOf.throw] at h
  | some raw =>
    cases hcoerced : r.kind.coerce raw with
    | error fault =>
      simp [ofRequest, hraw, hcoerced, bind, Except.bind, Except.mapError] at h
    | ok v =>
      rw [hkind] at hcoerced
      simp [ofRequest, hraw, hcoerced, hkind, hnot, bind, pure, Except.bind, Except.pure,
        Except.mapError] at h
      rw [← h, store_of_coerce hcoerced]
      exact ⟨_, rfl⟩

/-- Whatever is written into an arc that carries a time is a time. -/
theorem apply_timeExpires (h : u.Timed .timeExpires) {old : Option ArcValue}
    (hold : ∀ value, old = some value → ∃ time, value = .unsigned time) (now : UInt32) :
    ∃ time, u.apply .timeExpires old now = .unsigned time := by
  cases u with
  | set value =>
    cases value with
    | some value => exact h value rfl rfl
    | none =>
      cases old with
      | none => exact ⟨now, rfl⟩
      | some value => exact hold value rfl
  | add delta => cases old <;> exact ⟨_, rfl⟩

end ArcUpdate

namespace Store

variable {agree : Agreement} {pending : Expiring → Option UInt32} {s : Store} {i t : CellId}
  {code : LabelCode} {relationship : String}

theorem arcAt?_putArc (hp : s.Placed) (hi : s.Live i) (ht : s.Live t) (code : LabelCode)
    (kind : ArcKind) (forwardOnly : Bool) (u : ArcUpdate) (now : UInt32) :
    (s.putArc i t code kind forwardOnly u now).2.arcAt? i t code kind =
      some (s.writtenArc i t code kind forwardOnly u now) := by
  rw [(wrote_putArc hi ht code kind forwardOnly u now).initialSide.arcAt? hp ht ht]
  exact if_pos ⟨rfl, rfl, Slots.inSlot_self _⟩

theorem kept_scheduleAt (s : Store) (item : Expiring) (time : UInt32) :
    s.Kept (s.scheduleAt item time) :=
  ⟨SameFrame.extends (sameFrame_of_cells rfl rfl), .refl _, fun _ _ => rfl⟩

/-- Both ends of a connect are touched. -/
theorem sameTimes_touch {E : CellId → CellId → LabelCode → Prop} (s : Store) (i t : CellId)
    (now : UInt32) :
    SameTimes E s ((s.modifyData i (·.touch now)).modifyData t (·.touch now)) :=
  (sameTimes_modifyData s i (Action.keepsArcs_touch now) fun _ => rfl).trans
    (sameTimes_modifyData _ t (Action.keepsArcs_touch now) fun _ => rfl)

/-- An arc with a time has been written, and the end of the relationship is scheduled. -/
theorem tends_ending {s₁ : Store} {a : StoredArc} {time : UInt32} (hp : s.Placed)
    (h : s.Timely pending) (hi : s.Live i) (ht : s.Live t)
    (hnamed : s.labels.relationships.decode? code = some relationship) (hne : relationship ≠ "")
    (hsame : SameTimes (fun i' t' code' => i' = i ∧ t' = t ∧ code' = code) s s₁)
    (hwritten : s₁.arcAt? i t code .timeExpires = some a) (hvalue : a.value = .unsigned time)
    {s₂ : Store} (hlast : SameTimes (fun _ _ _ => False) s₁ s₂) :
    (s₂.scheduleAt (.arc (s₂.cell i).id relationship (s₂.cell t).id) time).Timely pending ∧
      s.Kept (s₂.scheduleAt (.arc (s₂.cell i).id relationship (s₂.cell t).id) time) := by
  have hall : SameTimes (fun i' t' code' => i' = i ∧ t' = t ∧ code' = code) s s₂ :=
    hsame.trans ⟨hlast.frame, hlast.dates, fun i t code hi ht _ => hlast.arcs i t code hi ht id⟩
  have hwritten₂ : s₂.arcAt? i t code .timeExpires = some a :=
    (hlast.arcs i t code (hsame.frame.live_iff.2 hi) (hsame.frame.live_iff.2 ht) id).trans hwritten
  refine ⟨?_, hall.kept.trans (kept_scheduleAt s₂ _ time)⟩
  rw [hall.frame.id i, hall.frame.id t]
  exact h.date hp hi ht hnamed hne hall hwritten₂ hvalue

theorem tends_connectTo (hs : s.Sound agree) (h : s.Timely pending) (hi : s.Live i)
    (ht : s.Live t) {r : ConnectRequest} {u : ArcUpdate}
    (hnamed : s.labels.relationships.decode? code = some r.arc.relationship)
    (hne : r.arc.relationship ≠ "") (hu : u.Timed r.arc.kind) (now : UInt32) :
    (s.connectTo now r code u i t).2.Timely pending ∧ s.Kept (s.connectTo now r code u i t).2 := by
  have hfirst : ∀ E : CellId → CellId → LabelCode → Prop,
      (r.arc.kind = .timeExpires → E i t code) →
        SameTimes E s (s.putArc i t code r.arc.kind r.arc.forwardOnly u now).2 :=
    fun E hE => sameTimes_putArc hs.placed hi ht hE r.arc.forwardOnly u now
  have hwritten := arcAt?_putArc hs.placed hi ht code r.arc.kind r.arc.forwardOnly u now
  have hvalue : (s.putArc i t code r.arc.kind r.arc.forwardOnly u now).1.2 =
    (s.writtenArc i t code r.arc.kind r.arc.forwardOnly u now).value := rfl
  have hplaced := (wrote_putArc hi ht code r.arc.kind r.arc.forwardOnly u now).frame
  cases hput : s.putArc i t code r.arc.kind r.arc.forwardOnly u now with
  | mk answer s₁ =>
    obtain ⟨isNew, value⟩ := answer
    rw [hput] at hfirst hwritten hvalue hplaced
    simp only [connectTo, hput]
    cases r.lifespan with
    | some lifespan =>
      have hp₁ := placed_of_sameFrame hs.placed hplaced
      have hi₁ := hplaced.live_iff.2 hi
      have ht₁ := hplaced.live_iff.2 ht
      exact tends_ending hs.placed h hi ht hnamed hne
        ((hfirst _ fun _ => ⟨rfl, rfl, rfl⟩).trans
          (sameTimes_putArc hp₁ hi₁ ht₁ (fun _ => ⟨rfl, rfl, rfl⟩) r.arc.forwardOnly _ now))
        (arcAt?_putArc hp₁ hi₁ ht₁ code .timeExpires r.arc.forwardOnly _ now) rfl
        (sameTimes_touch _ i t now)
    | none =>
      by_cases hkind : r.arc.kind = .timeExpires
      · have hold : ∀ value, (s.arcAt? i t code r.arc.kind).map (·.value) = some value →
            ∃ time, value = .unsigned time := by
          intro value hvalue
          obtain ⟨a, ha, rfl⟩ := Option.map_eq_some_iff.1 hvalue
          obtain ⟨_, time, _, _, hunsigned⟩ := h.coded i t code a hi ht (hkind ▸ ha)
          exact ⟨time, hunsigned⟩
        obtain ⟨time, htime⟩ := ArcUpdate.apply_timeExpires (hkind ▸ hu) hold now
        have htime' : value = .unsigned time := by
          rw [← htime, ← hkind]
          exact hvalue
        simp only [if_pos hkind, htime', ArcValue.unsigned?]
        exact tends_ending hs.placed h hi ht hnamed hne (hfirst _ fun _ => ⟨rfl, rfl, rfl⟩)
          (hkind ▸ hwritten) (hvalue.symm.trans htime') (sameTimes_touch _ i t now)
      · simp only [if_neg hkind]
        have hsame : SameTimes (fun _ _ _ => False) s
            ((s₁.modifyData i (·.touch now)).modifyData t (·.touch now)) :=
          (hfirst _ fun e => hkind e).trans (sameTimes_touch _ i t now)
        exact ⟨h.calm hsame.calm, hsame.kept⟩

end Store

namespace Action

open Store

variable {agree : Agreement} {pending : Expiring → Option UInt32} {P : Store → Prop}
  {who : Caller}

/-- The label of a relationship has the code. -/
def Named (relationship : String) (code : LabelCode) (s : Store) : Prop :=
  s.labels.relationships.decode? code = some relationship

theorem Named.kept {relationship : String} {code : LabelCode} {s s' : Store} (hk : s.Kept s')
    (h : Named relationship code s) : Named relationship code s' := hk.names code relationship h

theorem tending_connectHeld {r : ConnectRequest} {code : LabelCode} {u : ArcUpdate}
    (hne : r.arc.relationship ≠ "") (hu : u.Timed r.arc.kind) (gate : Option Gate) (i : CellId)
    (terminals : List CellId) :
    Tending agree pending
      (fun s => Named r.arc.relationship code s ∧ AllLive (i :: terminals) s)
      (connectHeld who r code u gate i terminals) fun _ _ => True := by
  have hstable := frameStable_allLive (i :: terminals)
  have hframe : ∀ {α : Type} {a : Action α} {Q : α → Store → Prop},
      Tending agree pending (AllLive (i :: terminals)) a Q →
        Tending agree pending
          (fun s => Named r.arc.relationship code s ∧ AllLive (i :: terminals) s) a
          fun x s => Named r.arc.relationship code s ∧ Q x s :=
    fun h => h.frame _ fun _ _ hk => Named.kept hk
  refine tending_bind (tending_read_any (f := id)) fun s => ?_
  refine tending_bind (tending_ofExcept (Q := fun passing s => (∀ t ∈ passing, t ∈ terminals) ∧
    Named r.arc.relationship code s ∧ AllLive (i :: terminals) s) ?_) fun passing => ?_
  · intro s' passing hl hadm
    refine ⟨?_, hl⟩
    cases ha : admitted s r.arc code gate i terminals with
    | error e =>
      rw [ha] at hadm
      cases hadm
    | ok passing' =>
      rw [ha] at hadm
      cases hadm
      exact admitted_subset ha
  · refine .intro (fun _ h => h.1) fun hsub => ?_
    refine tending_bind ((hframe (tending_promote hstable)).weaken (fun _ h => h.2)
      fun _ _ h => h) fun _ => ?_
    refine (tending_foldlM fun acc t ht => ?_).weaken (fun _ h => h) fun _ _ _ => trivial
    refine tending_bind (M := fun _ s =>
      Named r.arc.relationship code s ∧ AllLive (i :: terminals) s) (tending_ofFun ?_)
        fun _ => tending_pure fun _ h => h
    intro s hs htimely hl
    have hlive := allLive_cons.1 hl.2
    have hlt := hlive.2 t (hsub t ht)
    have w := writing_connectTo (W := fun _ => True) trivial trivial hlive.1 hlt who.now r code u
    obtain ⟨htimely', hk⟩ := tends_connectTo hs htimely hlive.1 hlt hl.1 hne hu who.now
    exact ⟨Steps.sound w.steps hs, htimely', hk,
      fun _ _ => ⟨hl.1.kept hk, hstable _ _ w.frame hl.2⟩⟩

theorem tending_terminalCells (initial : String) (i : CellId) (terminals : Terminals) :
    Tending agree pending (AllLive [i]) (terminalCells who initial i terminals) fun found s =>
      AllLive (i :: found.1) s := by
  cases terminals with
  | one t =>
    unfold terminalCells
    dsimp only
    split
    · exact tending_pure fun s hl => allLive_cons.2 ⟨hl i List.mem_cons_self, hl⟩
    · refine tending_bind (tending_findOrAdd [i]) fun (c, isNew) => tending_pure fun s hl => ?_
      have hlive := allLive_cons.1 hl
      exact allLive_cons.2 ⟨hlive.2 i List.mem_cons_self, allLive_cons.2 ⟨hlive.1, allLive_nil⟩⟩
  | list ids =>
    refine tending_bind (tending_mapM_cells (fun id _ cs => ?_) [i]) fun cells => ?_
    · refine tending_bind (tending_lookup cs) fun found => ?_
      cases found with
      | none => exact tending_fail
      | some c => exact tending_pure fun _ h => h
    · refine tending_pure fun s hl => ?_
      exact allLive_cons.2 ⟨hl i (List.mem_append_right _ List.mem_cons_self),
        fun c hc => hl c (List.mem_append_left _ hc)⟩

theorem tending_collectUnheld (cells : List CellId) :
    Tending agree pending (fun _ => True) (collectUnheld who cells) fun _ _ => True := by
  refine tending_forM fun c _ => ?_
  refine tending_bind (M := fun _ _ => True)
    ((tending_attempt (tending_acquire frameStable_true)).weaken (fun _ h => h)
      fun _ _ _ => trivial) fun r => ?_
  cases r with
  | error e => exact tending_pure fun _ h => h
  | ok g =>
    refine tending_ofFun fun s hs ht _ => ?_
    obtain ⟨hs', ht', hk⟩ := tends_drop hs ht g
    exact ⟨hs', ht', hk, fun _ _ => trivial⟩

theorem tending_connectAs {r : ConnectRequest} {code : LabelCode} {u : ArcUpdate}
    (hne : r.arc.relationship ≠ "") (hu : u.Timed r.arc.kind) (gate : Option Gate) :
    Tending agree pending (Named r.arc.relationship code) (connectAs who r code u gate)
      fun _ _ => True := by
  refine tending_bind (((tending_findOrAdd []).frame _ fun _ _ hk => Named.kept hk).weaken
    (fun _ h => ⟨h, allLive_nil⟩) fun _ _ h => h) fun (i, _) => ?_
  refine tending_bind ((tending_terminalCells r.initial i r.terminals).frame _
    fun _ _ hk => Named.kept hk) fun (terminals, added) => ?_
  refine tending_bind (tending_attempt ((tending_acquireMany (frameStable_allLive _)).frame _
    fun _ _ hk => Named.kept hk)) fun guards => ?_
  cases guards with
  | error e =>
    exact tending_bind ((tending_collectUnheld added).weaken (fun _ _ => trivial) fun _ _ h => h)
      fun _ => tending_fail
  | ok guards =>
    refine tending_ensuring ((tending_connectHeld hne hu gate i terminals).weaken
      (fun _ h => h guards rfl) fun _ _ h => h) fun s hs ht => tends_dropAll hs ht guards

theorem tending_connectWith {r : ConnectRequest} {u : ArcUpdate} (hu : u.Timed r.arc.kind) :
    Tending agree pending (fun _ => True) (connectWith who r u) fun _ _ => True := by
  unfold connectWith
  refine tending_bind tending_checkWritable fun _ => ?_
  refine tending_bind tending_read_any fun fault => tending_bind tending_refuse fun _ => ?_
  split
  · exact tending_fail
  next hfit =>
    refine tending_bind tending_read_any fun condition => ?_
    refine tending_bind (tending_ofExcept (Q := fun _ _ => True) fun _ _ h _ => h) fun gate => ?_
    refine tending_bind (M := fun _ _ => True) ?_ fun ids => ?_
    · unfold terminalIds
      split
      · exact tending_pure fun _ h => h
      · exact tending_bind tending_read_any fun _ => tending_bind tending_refuse fun _ =>
          tending_pure fun _ h => h
    split
    · exact tending_pure fun _ h => h
    · refine tending_bind tending_read_any fun fault => tending_bind tending_refuse fun _ => ?_
      refine tending_bind (tending_encodeRelationship frameStable_true) fun code => ?_
      exact (tending_connectAs (fun e => hfit (.inl e)) hu gate).weaken (fun _ h => h.1)
        fun _ _ h => h

theorem tending_connect (r : ConnectRequest) :
    Tending agree pending (fun _ => True) (connect who r) fun _ _ => True := by
  refine tending_bind (tending_ofExcept (Q := fun u _ => u.Timed r.arc.kind)
    fun _ _ _ hu => ArcUpdate.timed_ofRequest hu) fun u => ?_
  refine .intro (fun _ h => h) fun hu => ?_
  exact tending_bind ((tending_connectWith hu).weaken (fun _ _ => trivial) fun _ _ h => h)
    fun _ => tending_pure fun _ h => h

theorem tending_writeValue {r : ConnectRequest} {u : ArcUpdate} (hu : u.Timed r.arc.kind)
    (fault : Error) :
    Tending agree pending (fun _ => True)
      (do
        match (← connectWith who r u).2 with
        | some value => return value
        | none => fail fault) fun _ _ => True := by
  refine tending_bind (tending_connectWith hu) fun written => ?_
  split
  · exact tending_pure fun _ h => h
  · exact tending_fail

theorem tending_addTo (initial relationship terminal : String) (kind : ArcKind)
    (delta : Binary64) :
    Tending agree pending (fun _ => True) (addTo who initial relationship terminal kind delta)
      fun _ _ => True := by
  have hadd : (ArcUpdate.add delta).Timed kind := ArcUpdate.timed_add delta kind
  unfold addTo
  dsimp only
  split
  · exact tending_bind tending_fail fun _ => tending_writeValue hadd _
  · exact tending_writeValue hadd _

theorem tending_count (initial relationship terminal : String) (delta : Option Int) :
    Tending agree pending (fun _ => True) (count who initial relationship terminal delta)
      fun _ _ => True :=
  tending_bind (tending_addTo _ _ _ _ _) fun _ => tending_pure fun _ h => h

theorem tending_accumulate (initial relationship terminal : String) (delta : Option Binary64) :
    Tending agree pending (fun _ => True) (accumulate who initial relationship terminal delta)
      fun _ _ => True :=
  tending_bind (tending_addTo _ _ _ _ _) fun _ => tending_pure fun _ h => h

theorem tending_markArcExpiring (initial relationship terminal : String) (time : UInt32) :
    Tending agree pending (fun _ => True)
      (markArcExpiring who initial relationship terminal time) fun _ _ => True := by
  unfold markArcExpiring
  refine tending_bind tending_checkWritable fun _ => tending_bind tending_read_any fun filter => ?_
  refine tending_bind (tending_ofExcept (Q := fun _ _ => True) fun _ _ h _ => h) fun filter => ?_
  refine tending_bind tending_read_any fun i => tending_bind tending_read_any fun t => ?_
  split
  next i t =>
    refine tending_holdingMany (Q := fun _ _ => True) frameStable_true ?_
    refine tending_bind tending_read_any fun present => ?_
    split
    · exact tending_bind (tending_connect _) fun _ => tending_pure fun _ h => h
    · exact tending_fail
  next => exact tending_fail

end Action

end Arcbase
