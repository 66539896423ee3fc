import Arcbase.Proofs.Action.Confined
import Arcbase.Proofs.Action.Slots
import Arcbase.Proofs.Action.Timely
set_option autoImplicit false

/-!
# Vertices come, and then go

An operation may let vertices come (`Waxes`), and after that it may let vertices go (`Wanes`).
No identifier passes from one vertex to another that way (`Turnover.eq_of_lookup`).  Whatever
else happens to a vertex, the time at which it was created stays (`Steps.created`), and so it
does under its identifier (`Turnover.created`).

Opening takes no vertex out, and what holds vertices lets them go only once it gives them up
again.  So whatever an action registers it registers before it takes anything out
(`TurnsOver`), a connect in whichever way it goes (`ConnectRun.turnover`).
-/

namespace Arcbase

namespace Store

variable {agree : Agreement} {W : CellId → Prop} {s s' s'' : Store} {c : CellId}

/-! ## When a vertex was created -/

theorem Step.created (st : Step W s s') (hc : c < s.cells.size) :
    (s'.data c).created = (s.data c).created := by
  cases st with
  | attributes _ keeps =>
    rw [data_modifyData_ite]
    split
    · exact (keeps _).2.2.2.2
    · rfl
  | add => rw [data, cell_addCell, if_neg (Nat.ne_of_lt hc), data]
  | remove =>
    rw [data, cell_remove, cell_modifyData]
    split <;> rfl
  | put _ _ liveInitial liveTerminal =>
    rw [data_putArc _ _ _ _ _ liveInitial.1 liveTerminal.1, dataWith]
  | detach _ _ liveInitial liveTerminal found =>
    have hdata := congrArg VertexData.created (data_detach liveInitial.1 liveTerminal.1 found c)
    exact hdata
  | _ => rfl

theorem Steps.created (st : Steps W s s') (hc : c < s.cells.size) :
    (s'.data c).created = (s.data c).created := by
  induction st with
  | refl => rfl
  | tail hst st ih =>
    exact (st.created (Nat.lt_of_lt_of_le hc (Steps.extends hst).count)).trans ih

/-! ## Coming and going -/

/-- Vertices may have come, but none has gone. -/
structure Waxes (s s' : Store) : Prop where
  cells : s.Extends s'
  live : ∀ c, s.Live c → s'.Live c

/-- Vertices may have gone, but none has come. -/
structure Wanes (s s' : Store) : Prop where
  cells : s.Extends s'
  live : ∀ c, s'.Live c → s.Live c

instance : IsPreorder Store Waxes where
  refl s := ⟨.refl s, fun _ => id⟩
  trans _ _ _ h h' := ⟨h.cells.trans h'.cells, fun c hc => h'.live c (h.live c hc)⟩

instance : IsPreorder Store Wanes where
  refl s := ⟨.refl s, fun _ => id⟩
  trans _ _ _ h h' := ⟨h.cells.trans h'.cells, fun c hc => h.live c (h'.live c hc)⟩

theorem SameFrame.waxes (h : s.SameFrame s') : s.Waxes s' :=
  ⟨h.extends, fun _ => h.live_iff.2⟩

theorem SameFrame.wanes (h : s.SameFrame s') : s.Wanes s' :=
  ⟨h.extends, fun _ => h.live_iff.1⟩

theorem Waxes.trans (h : s.Waxes s') (h' : s'.Waxes s'') : s.Waxes s'' := trans_of Waxes h h'

theorem Wanes.trans (h : s.Wanes s') (h' : s'.Wanes s'') : s.Wanes s'' := trans_of Wanes h h'

/-- Without a new cell no vertex comes. -/
theorem wanes_of_steps (st : Steps W s s') (hsize : s'.cells.size = s.cells.size) : s.Wanes s' :=
  ⟨Steps.extends st, fun _ hc => Steps.live_of_live st (hsize ▸ hc.1) hc⟩

/-- First some vertices have come, and then some have gone. -/
def Turnover (s s' : Store) : Prop := ∃ s₁, s.Waxes s₁ ∧ s₁.Placed ∧ s₁.Wanes s'

theorem Waxes.turnover (h : s.Waxes s') (hp : s'.Placed) : s.Turnover s' :=
  ⟨s', h, hp, refl_of Wanes s'⟩

theorem Wanes.turnover (h : s.Wanes s') (hp : s.Placed) : s.Turnover s' :=
  ⟨s, refl_of Waxes s, hp, h⟩

theorem Turnover.wanes (h : s.Turnover s') (h' : s'.Wanes s'') : s.Turnover s'' := by
  obtain ⟨s₁, hwaxes, hp, hwanes⟩ := h
  exact ⟨s₁, hwaxes, hp, hwanes.trans h'⟩

theorem Waxes.turnover_trans (h : s.Waxes s') (h' : s'.Turnover s'') : s.Turnover s'' := by
  obtain ⟨s₁, hwaxes, hp, hwanes⟩ := h'
  exact ⟨s₁, h.trans hwaxes, hp, hwanes⟩

/-- An identifier that is there before and after stands for one vertex. -/
theorem Turnover.eq_of_lookup (h : s.Turnover s') (hp : s.Placed) (hp' : s'.Placed) {id : String}
    {c' : CellId} (hc : s.lookup id = some c) (hc' : s'.lookup id = some c') : c' = c := by
  obtain ⟨s₁, hwaxes, hp₁, hwanes⟩ := h
  obtain ⟨hlive, hid⟩ := hp.of_lookup hc
  obtain ⟨hlive', hid'⟩ := hp'.of_lookup hc'
  have hmid := hwanes.live c' hlive'
  refine hp₁.eq_of_id hmid (hwaxes.live c hlive) ?_
  rw [hwaxes.cells.id c hlive.1, ← hwanes.cells.id c' hmid.1, hid, hid']

/-- A vertex that is there before and after under one identifier was created when it was. -/
theorem Turnover.created (h : s.Turnover s') (st : Steps W s s') (hp : s.Placed) {id : String}
    {c' : CellId} (hc : s.lookup id = some c) (hc' : s'.lookup id = some c') :
    (s'.data c').created = (s.data c).created := by
  obtain rfl := h.eq_of_lookup hp (Steps.placed st hp) hc hc'
  exact Steps.created st (hp.of_lookup hc).1.1

end Store

open Store

variable {α β : Type} {agree : Agreement} {who : Caller} {s s' : Store} {G : List Guard}

/-! ## What comes, and what goes -/

theorem Store.Grown.waxes {new : List Cell} (h : Grown new s s') : s.Waxes s' :=
  ⟨⟨h.count, fun c hc => congrArg Cell.id (h.cell c hc),
    fun c hc => congrArg Cell.key (h.cell c hc)⟩, fun _ hc => (h.live_iff hc.1).2 hc⟩

theorem Store.Swept.wanes {V : CellId → Prop} {A : Place → Prop} (h : Swept V A s s') :
    s.Wanes s' := ⟨h.cells, h.live⟩

theorem Store.wanes_collectOrphan (s : Store) (c : CellId) : s.Wanes (s.collectOrphan c) := by
  rw [collectOrphan]
  split
  · exact ⟨extends_remove s c, fun _ hc => (live_remove_iff.1 hc).1⟩
  · exact refl_of Wanes s

namespace Action

theorem toleratesGains_waxes (agree : Agreement) (now : UInt32) :
    ToleratesGains agree now (fun _ => True) Waxes where
  locks s locks _ := ⟨trivial, (sameFrame_locks s locks).waxes⟩
  labels s _ _ := ⟨trivial, (sameFrame_labels s _).waxes⟩
  types s _ _ := ⟨trivial, (sameFrame_labels s _).waxes⟩
  promote s c _ _ := ⟨trivial, ((keepsArcs_promote now).sameFrame s c).waxes⟩
  edit s c _ _ hf _ _ := ⟨trivial, (hf.sameFrame s c).waxes⟩
  add _ _ _ _ _ _ :=
    ⟨trivial, extends_addCell .., fun _ hc => (live_addCell_iff rfl).2 (.inr hc)⟩

theorem toleratesLosses_wanes (agree : Agreement) (now : UInt32) :
    ToleratesLosses agree now (fun _ => True) Wanes where
  locks s locks _ := ⟨trivial, (sameFrame_locks s locks).wanes⟩
  labels s _ _ := ⟨trivial, (sameFrame_labels s _).wanes⟩
  types s _ _ := ⟨trivial, (sameFrame_labels s _).wanes⟩
  promote s c _ _ := ⟨trivial, ((keepsArcs_promote now).sameFrame s c).wanes⟩
  edit s c _ _ hf _ _ := ⟨trivial, (hf.sameFrame s c).wanes⟩
  collect s c _ _ := ⟨trivial, wanes_collectOrphan s c⟩

/-- Changes of attributes let no vertex come or go. -/
theorem confined_editing {c : CellId} {f : VertexData → VertexData} (hf : KeepsArcs f) :
    Confined agree (fun _ => True) Wanes (fun _ => True) (update (·.modifyData c f))
      fun _ _ => True :=
  confined_ofFun fun s hs _ _ => ⟨(Step.attributes (W := fun _ => True) trivial hf).sound hs,
    trivial, (hf.sameFrame s c).wanes, fun _ _ => trivial⟩

/-! ## Sequences -/

/-- The action first lets vertices come, and then lets vertices go. -/
def TurnsOver (agree : Agreement) (P : Store → Prop) (a : Action α) : Prop :=
  ∀ s r s', s.Sound agree → P s → a.run s = (r, s') → s.Turnover s'

theorem Confined.turnsOver {P : Store → Prop} {a : Action α} {Q : α → Store → Prop}
    (h : Confined agree (fun _ => True) Wanes P a Q) : TurnsOver agree P a := by
  intro s r s' hs hp hrun
  obtain ⟨_, _, hwanes, _⟩ := h s r s' hs trivial hp hrun
  exact hwanes.turnover hs.placed

theorem TurnsOver.bind {P : Store → Prop} {a : Action α} {f : α → Action β} {M : α → Store → Prop}
    (ha : Confined agree (fun _ => True) Waxes P a M) (hf : ∀ x, TurnsOver agree (M x) (f x)) :
    TurnsOver agree P (a >>= f) := by
  intro s r s' hs hp hrun
  rw [run_bind] at hrun
  cases hrun₁ : a.run s with
  | mk r₁ s₁ =>
    rw [hrun₁] at hrun
    obtain ⟨hs₁, _, hwaxes, hm⟩ := ha s r₁ s₁ hs trivial hp hrun₁
    cases r₁ with
    | error e =>
      cases hrun
      exact hwaxes.turnover hs₁.placed
    | ok x => exact hwaxes.turnover_trans (hf x s₁ r s' hs₁ (hm x rfl) hrun)

/-! ## Requests -/

/-- What is done with a vertex that is created once it is held. -/
theorem confined_creating (id : String) (type : Option String) (code : Option LabelCode)
    (c : CellId) (isNew : Bool) :
    Confined agree (fun _ => True) Wanes (fun _ => True)
      (do
        if isNew then
          update (·.modifyData c fun d => { d with type := code })
          return 1
        let d ← read (·.data c)
        match d.type, code with
        | some present, some wanted =>
          if present ≠ wanted ∧ d.manifestation = .real then
            let present ← read fun s => (s.labels.types.decode? present).getD ""
            fail (.vertex (.typeClash id present (type.getD "")))
        | _, _ => pure ()
        if code.isSome then update (·.modifyData c fun d => { d with type := code })
        update (·.modifyData c (·.promote who.now))
        return if d.manifestation = .virtual then 1 else 0) fun _ _ => True := by
  have htyped : KeepsArcs fun d => { d with type := code } := fun _ => ⟨rfl, rfl, rfl, rfl, rfl⟩
  -- what follows once the type is known not to clash
  have hend : ∀ d : VertexData, Confined agree (fun _ => True) Wanes (fun _ => True)
      (do
        if code.isSome then update (·.modifyData c fun d => { d with type := code })
        update (·.modifyData c (·.promote who.now))
        return if d.manifestation = .virtual then 1 else 0 : Action Nat) fun _ _ => True := by
    intro d
    have hlast : Confined agree (fun _ => True) Wanes (fun _ => True)
        (do
          update (·.modifyData c (·.promote who.now))
          return if d.manifestation = .virtual then 1 else 0 : Action Nat) fun _ _ => True :=
      confined_bind (confined_editing (keepsArcs_promote who.now)) fun _ =>
        confined_pure fun _ h => h
    cases code with
    | none => exact hlast
    | some wanted => exact confined_bind (confined_editing htyped) fun _ => hlast
  split
  · exact confined_bind (confined_editing htyped) fun _ => confined_pure fun _ h => h
  · refine confined_bind confined_read_any fun d => ?_
    dsimp only
    split
    · split
      · exact confined_bind confined_read_any fun _ => confined_bind confined_fail fun _ => hend d
      · exact hend d
    · exact hend d

theorem turnsOver_create (id : String) (type : Option String) :
    TurnsOver agree (fun _ => True) (create who id type) := by
  have gains := toleratesGains_waxes agree who.now
  have losses := toleratesLosses_wanes agree who.now
  have htypes : Confined agree (fun _ => True) Waxes (fun _ => True) (type.mapM encodeType)
      fun _ _ => True := by
    cases type with
    | none => exact confined_pure fun _ h => h
    | some label =>
      exact confined_bind (gains.encodingType frameStable_true) fun _ => confined_pure fun _ h => h
  refine .bind confined_checkWritable fun _ => .bind htypes fun code => ?_
  refine .bind ((gains.findingOrAdding []).weaken (fun _ _ => allLive_nil) fun _ _ _ => trivial)
    fun (c, isNew) => ?_
  exact (losses.holding frameStable_true.locks (confined_creating id type code c isNew)).turnsOver

theorem confined_setExpiration (g : Guard) (time : UInt32) :
    Confined agree (fun _ => True) Wanes (fun _ => True) (setExpiration g time)
      fun _ _ => True := by
  refine confined_bind (confined_requireWritable g) fun _ => confined_ofFun fun s hs _ _ => ?_
  have hexpires : KeepsArcs fun d => { d with expires := some time } :=
    fun _ => ⟨rfl, rfl, rfl, rfl, rfl⟩
  have st : Steps (fun _ => True) s
      ((s.expireAt g.item.slot time).scheduleAt (.vertex g.item.label) time) :=
    .tail (.single (.attributes trivial hexpires)) (.schedule _ _)
  have hsize : (s.expireAt g.item.slot time).cells.size = s.cells.size :=
    size_cells_modifyData s g.item.slot _
  exact ⟨Steps.sound st hs, trivial, wanes_of_steps st hsize, fun _ _ => trivial⟩

theorem turnsOver_markExpiring (id : String) (time : UInt32) :
    TurnsOver agree (fun _ => True) (markExpiring who id time) := by
  have losses := toleratesLosses_wanes agree who.now
  refine Confined.turnsOver (Q := fun _ _ => True)
    (confined_bind confined_checkWritable fun _ => ?_)
  refine confined_bind (losses.acquiringExisting id .writable) fun g => ?_
  exact confined_ensuring (confined_setExpiration g time) fun _ hs hi => losses.dropping hs hi g

section Removing

variable (hs : s.Sound agree) (hg : s.Guarded G)
include hs hg

theorem wanes_delete {id : String} {r : Except Error Nat}
    (hrun : (delete who id).run s = (r, s')) : s.Wanes s' := by
  have hswept : Swept (fun _ => True) (fun _ => True) s s' :=
    (run_delete hs hg hrun).swept hs hg fun _ _ _ => trivial
  exact hswept.wanes

theorem wanes_disconnect {anchor : String} {probe : Probe} {neighbor : Option String}
    {r : Except Error Nat} (hrun : (disconnect who anchor probe neighbor).run s = (r, s')) :
    s.Wanes s' := by
  obtain ⟨st, _⟩ := orderly_disconnect (W := fun _ => True) (fun _ _ => trivial) anchor probe
    neighbor s r s' hs hg trivial hrun
  exact wanes_of_steps st (run_disconnect hs hg hrun).sameDates.count

theorem wanes_runExpiration {time : UInt32} {r : Except Error ExpirationReport}
    (hrun : (runExpiration who time).run s = (r, s')) : s.Wanes s' :=
  (swept_pass hs hg hrun).wanes

end Removing

/-! ## Connecting -/

section Connecting

variable {r : ConnectRequest} {u : ArcUpdate} {gate : Option Gate} {code : LabelCode} {i : CellId}
  {cells : List CellId} {new : List Guard} {s₁ : Store} {locks : LockTable}

/-- Once the ends are held no vertex comes any more. -/
theorem HeldEnds.turnover (held : HeldEnds agree who r gate code G s i cells new s₁ locks)
    {s₂ : Store} (hframe : s₁.SameFrame s₂) (hs₂ : s₂.Sound agree) :
    s.Turnover (s₂.dropAll new) := by
  have henlarged : Waxes { s with labels := s₁.labels } s₁ :=
    ⟨held.located.enlarged.extends_, held.located.enlarged.live⟩
  have hdropped : s₂.Wanes (s₂.dropAll new) :=
    ((toleratesLosses_wanes agree who.now).droppingAll hs₂ trivial new).2.2
  exact ⟨s₁, (sameFrame_labels s _).waxes.trans henlarged, held.located.enlarged.sound.placed,
    hframe.wanes.trans hdropped⟩

theorem ConnectRun.turnover {answer : Except Error (Nat × Option ArcValue)}
    (h : ConnectRun agree who r u G s answer s') (hs : s.Sound agree) (hp' : s'.Placed) :
    s.Turnover s' := by
  cases h with
  | withdrawn _ grown => exact grown.waxes.turnover hp'
  | idle => exact (SameFrame.refl s).waxes.turnover hs.placed
  | refused held => exact held.turnover (sameFrame_locks _ _) held.sound
  | written held passes writes =>
    have hlinked := held.linked passes writes
    exact held.turnover (held.promoted.2.2.trans hlinked.writing.frame)
      (held.written passes writes).1

end Connecting

end Action

end Arcbase
