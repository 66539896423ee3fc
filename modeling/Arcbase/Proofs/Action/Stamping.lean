import Arcbase.Proofs.Action.Confined
import Arcbase.Proofs.Action.Retrying
import Arcbase.Proofs.Action.Sweeping
import Arcbase.Proofs.Action.Marking
set_option autoImplicit false

/-!
# Actions that stamp what they change

Opening, connecting and changes through a handle stamp every vertex that they change, with
its neighbors (`tolerates_stamped`, `writes_stamped`).  A deletion stamps all that it leaves
of its vertex (`DeleteRun.stamped`), while a disconnect does not stamp its anchor for an arc
to itself (`DisconnectRun.stamped`).  A creation stamps a virtual vertex that becomes real,
but not a real one that gets a type (`stamped_create`).
-/

namespace Arcbase

namespace Store

variable {agree : Agreement} {now : UInt32} {T L : CellId → Prop} {s s' : Store} {i t : CellId}

instance : IsPreorder Store (Stamped now T L) where
  refl := .refl
  trans _ _ _ := .trans

theorem stamped_addCell (hs : s.Sound agree) {id : String} {manifestation : Manifestation}
    (hfresh : s.lookupKey (.of id) = none) :
    Stamped now T L s (s.addCell { id, key := .of id, data := .new manifestation now }) :=
  have hadd : Steps (fun _ => False) s _ :=
    .single (.add hfresh rfl rfl (Action.bare_new manifestation now))
  stamped_of_steps hadd hs fun _ h => h.elim

theorem stamped_promote (hs : s.Sound agree) (c : CellId) :
    Stamped now T L s (s.modifyData c (·.promote now)) := by
  refine stamped_modifyData hs (Action.keepsArcs_promote now) ?_
  rw [VertexData.promote]
  split
  · exact .inl rfl
  · exact .inr ⟨rfl, rfl, rfl, rfl, .inl rfl⟩

theorem tolerates_stamped :
    Action.Tolerates agree now (fun _ => True) (Stamped now T L) where
  locks _ _ _ := ⟨trivial, stamped_of_cells rfl⟩
  collect _ c hs _ := ⟨trivial, stamped_collectOrphan hs c⟩
  labels _ _ _ := ⟨trivial, stamped_of_cells rfl⟩
  types _ _ _ := ⟨trivial, stamped_of_cells rfl⟩
  promote _ c hs _ := ⟨trivial, stamped_promote hs c⟩
  edit _ _ _ hs hf htimes _ := ⟨trivial, stamped_modifyData hs hf (.inl (htimes _).1)⟩
  add _ _ _ hs hfresh _ := ⟨trivial, stamped_addCell hs hfresh⟩

/-! ## Connecting -/

/-- Both ends of an arc that is written are touched last. -/
theorem modified_connectTo (hi : s.Live i) (ht : s.Live t) (r : ConnectRequest)
    (code : LabelCode) (u : ArcUpdate) {c : CellId} (hc : i = c ∨ t = c) :
    ((s.connectTo now r code u i t).2.data c).modified = now := by
  have htouched : ∀ s₁ : Store, s.SameFrame s₁ →
      (((s₁.modifyData i (·.touch now)).modifyData t (·.touch now)).data c).modified = now := by
    intro s₁ hframe
    have hi₁ := (hframe.live_iff.2 hi).1
    have ht₁ := (hframe.live_iff.2 ht).1
    rw [data_modifyData_ite, size_cells_modifyData, data_modifyData_ite]
    rcases hc with rfl | rfl
    · split
      · rfl
      · rw [if_pos ⟨rfl, hi₁⟩]
        rfl
    · rw [if_pos ⟨rfl, ht₁⟩]
      rfl
  have hfirst := sameFrame_putArc (s := s) (i := i) (t := t) code r.arc.kind r.arc.forwardOnly u now
  cases hput : s.putArc i t code r.arc.kind r.arc.forwardOnly u now with
  | mk answer s₁ =>
    rw [hput] at hfirst
    simp only [connectTo, hput]
    cases r.lifespan with
    | some lifespan =>
      dsimp only
      exact htouched _ (hfirst.trans (sameFrame_putArc ..))
    | none =>
      dsimp only
      split
      · exact htouched _ hfirst
      · exact htouched _ hfirst

theorem writes_stamped (r : ConnectRequest) (u : ArcUpdate) :
    Action.Writes agree now (fun _ => True) (Stamped now T L) (fun _ _ => True) r u where
  kept _ _ _ _ _ := trivial
  named _ _ _ _ := trivial
  write code s i t hs _ hi ht _ _ := by
    have w := writing_connectTo (W := fun c => i = c ∨ t = c) (.inl rfl) (.inr rfl) hi ht now r
      code u
    exact ⟨trivial, stamped_of_steps w.steps hs fun c hc _ _ =>
      .inl (modified_connectTo hi ht r code u hc)⟩

end Store

namespace Action

open Store

variable {agree : Agreement} {G : List Guard} {who : Caller} {T L : CellId → Prop}
  {s s' : Store} {id : String}

/-! ## Creating -/

/-- A vertex gets a type, and becomes real. -/
theorem stamped_typed (hs : s.Sound agree) {c : CellId} (code : Option LabelCode)
    (hT : (s.data c).manifestation = .virtual ∨ code = (s.data c).type ∨ T c) :
    Stamped who.now T L s
      ((s.modifyData c fun d => { d with type := code }).modifyData c (·.promote who.now)) := by
  have hf : KeepsArcs fun d => { d with type := code } := fun _ => ⟨rfl, rfl, rfl, rfl, rfl⟩
  have htyped : Step (fun _ => True) s (s.modifyData c fun d => { d with type := code }) :=
    .attributes trivial hf
  rcases hT with hvirtual | hT
  · refine stamped_of_steps (W := (c = ·)) (.tail (.single (.attributes rfl hf))
      (.attributes rfl (keepsArcs_promote who.now))) hs ?_
    rintro _ rfl hc -
    refine .inl ?_
    rw [data_modifyData_ite, size_cells_modifyData, if_pos ⟨rfl, hc.1⟩, data_modifyData_ite,
      if_pos ⟨rfl, hc.1⟩, VertexData.promote, if_pos hvirtual]
  · exact (stamped_modifyData hs hf (.inr ⟨rfl, rfl, rfl, rfl, hT⟩)).trans
      (stamped_promote (htyped.sound hs) c)

/-- What is done with a vertex that is created once its type is known not to clash. -/
theorem confined_typed (code : Option LabelCode) (c : CellId) (d : VertexData)
    (hT : code.isSome = true → d.type = none → d.manifestation = .real → T c)
    (hclash : ∀ present wanted, d.type = some present → code = some wanted →
      ¬ (present ≠ wanted ∧ d.manifestation = .real)) :
    Confined agree (fun _ => True) (Stamped who.now T L) (fun s => s.data c = d)
      (do
        if code.isSome then update (·.modifyData c fun d => { d with type := code })
        update (·.modifyData c (·.promote who.now))
        return if d.manifestation = .virtual then 1 else 0) fun _ _ => True := by
  intro s r s' hs _ hd hrun
  have htyped : Step (fun _ => True) s (s.modifyData c fun d => { d with type := code }) :=
    .attributes trivial fun _ => ⟨rfl, rfl, rfl, rfl, rfl⟩
  cases hcode : code with
  | none =>
    subst hcode
    cases hrun
    exact ⟨(Step.attributes (W := fun _ => True) trivial (keepsArcs_promote who.now)).sound hs,
      trivial, stamped_promote hs c, fun _ _ => trivial⟩
  | some wanted =>
    subst hcode
    cases hrun
    refine ⟨(Step.attributes (W := fun _ => True) trivial (keepsArcs_promote who.now)).sound
      (htyped.sound hs), trivial, stamped_typed hs (some wanted) ?_, fun _ _ => trivial⟩
    rw [hd]
    cases hman : d.manifestation with
    | virtual => exact .inl rfl
    | real =>
      refine .inr ?_
      cases htype : d.type with
      | none => exact .inr (hT rfl htype hman)
      | some present =>
        have hsame : present = wanted :=
          Classical.byContradiction fun hne => hclash present wanted htype rfl ⟨hne, hman⟩
        exact .inl (congrArg some hsame.symm)

/-- What is done with a vertex that is created once it is held. -/
theorem confined_createHeld (id : String) (type : Option String) (code : Option LabelCode)
    (c : CellId) (isNew : Bool) (d : VertexData)
    (hT : code.isSome = true → isNew = true ∨ d.type = none ∧ d.manifestation = .real → T c)
    (hnew : isNew = true → d.type = none) :
    Confined agree (fun _ => True) (Stamped who.now T L) (fun s => s.data c = d)
      (do
        if isNew then
          update (·.modifyData c fun d => { d with type := code })
          return 1
        let d ← read (·.data c)
        match d.type, code with
        | some present, some wanted =>
          if present ≠ wanted ∧ d.manifestation = .real then
            let present ← read fun s => (s.labels.types.decode? present).getD ""
            fail (.vertex (.typeClash id present (type.getD "")))
        | _, _ => pure ()
        if code.isSome then update (·.modifyData c fun d => { d with type := code })
        update (·.modifyData c (·.promote who.now))
        return if d.manifestation = .virtual then 1 else 0) fun _ _ => True := by
  have hf : KeepsArcs fun d => { d with type := code } := fun _ => ⟨rfl, rfl, rfl, rfl, rfl⟩
  cases isNew with
  | true =>
    refine confined_bind (M := fun _ _ => True) (confined_ofFun fun s hs _ hd => ?_) fun _ =>
      confined_pure fun _ h => h
    refine ⟨(Step.attributes (W := fun _ => True) trivial hf).sound hs, trivial, ?_,
      fun _ _ => trivial⟩
    refine stamped_modifyData hs hf (.inr ⟨rfl, rfl, rfl, rfl, ?_⟩)
    cases hcode : code with
    | none => exact .inl (hd ▸ (hnew rfl).symm)
    | some wanted => exact .inr (hT (hcode ▸ rfl) (.inl rfl))
  | false =>
    refine confined_bind (M := fun d' s => d' = d ∧ s.data c = d)
      (confined_read fun s _ hd => ⟨hd, hd⟩) fun d' => ?_
    refine .intro (fun _ h => h.1) ?_
    rintro rfl
    have hreal := fun hcode htype hman => hT hcode (.inr ⟨htype, hman⟩)
    refine Confined.weaken ?_ (fun _ h => h.2) fun _ _ h => h
    dsimp only
    split
    next present wanted hpresent =>
      split
      · exact confined_bind confined_read_any fun _ =>
          confined_bind (M := fun _ _ => False) confined_fail fun _ _ _ _ _ _ hp => hp.elim
      next hclash =>
        refine confined_typed _ c _ hreal fun present' wanted' hpresent' hwanted => ?_
        rw [hpresent] at hpresent'
        cases hpresent'
        cases hwanted
        exact hclash
    next hnone =>
      exact confined_typed _ c _ hreal fun present wanted hpresent hwanted =>
        absurd hwanted (hnone present wanted hpresent)

/-- The code of a type that was asked for, in a store that is as before but for the labels. -/
theorem confined_encodeTypes (s₀ : Store) (type : Option String) :
    Confined agree (fun _ => True) (Stamped who.now T L) (fun s => s = s₀)
      (type.mapM encodeType) fun code s =>
        s = { s₀ with labels := s.labels } ∧ (code.isSome = true → type.isSome = true) := by
  rintro s r s' hs - rfl hrun
  obtain ⟨hlabels, _⟩ := labelling_encodeTypes type s r s' hrun
  refine ⟨?_, trivial, stamped_of_cells (by rw [hlabels]), fun code hcode => ⟨hlabels, ?_⟩⟩
  · rw [hlabels]
    exact hs.withLabels _
  · cases type with
    | none =>
      cases hrun
      cases hcode
      exact id
    | some label => exact fun _ => rfl

/-- A creation may give a type without a stamp to a real vertex that has none. -/
theorem confined_create {s₀ : Store} {type : Option String}
    (hnew : ∀ c, s₀.cells.size ≤ c → T c)
    (hT : ∀ c, type.isSome = true → s₀.lookup id = some c → (s₀.data c).type = none →
      (s₀.data c).manifestation = .real → T c) :
    Confined agree (fun _ => True) (Stamped who.now T L) (fun s => s = s₀) (create who id type)
      fun _ _ => True := by
  have tol : Tolerates agree who.now (fun _ => True) (Stamped who.now T L) := tolerates_stamped
  unfold create
  refine confined_bind confined_checkWritable fun _ => ?_
  refine confined_bind (confined_encodeTypes s₀ type) fun code => ?_
  refine .intro (fun _ h => h.2) fun hcode => ?_
  refine confined_bind (M := fun found s =>
    (found.2 = true → (s.data found.1).type = none ∧ T found.1) ∧
      (found.2 = false → s₀.lookup id = some found.1 ∧ s.data found.1 = s₀.data found.1))
    (fun s r s' hs _ hlabels hrun => ?_) fun (c, isNew) => ?_
  · obtain ⟨hs', _, hk, _⟩ := tol.findingOrAdding [] s r s' hs trivial allLive_nil hrun
    refine ⟨hs', trivial, hk, fun found hfound => ?_⟩
    obtain ⟨c, isNew⟩ := found
    subst hfound
    have hlabels := hlabels.1
    rcases run_findOrAdd hrun with ⟨rfl, rfl, hlook, hid⟩ | ⟨rfl, _, rfl, rfl⟩
    · refine ⟨fun h => absurd h Bool.false_ne_true, fun _ => ?_⟩
      rw [hlabels] at hlook hid ⊢
      have hlook₀ : s₀.lookupKey (.of id) = some c := hlook
      have hid₀ : ((s₀.cell c).id == id) = true := beq_iff_eq.2 hid
      refine ⟨?_, rfl⟩
      rw [Store.lookup, hlook₀, Option.filter_some, if_pos hid₀]
    · refine ⟨fun _ => ⟨?_, hnew _ (by rw [hlabels])⟩, fun h => absurd h.symm Bool.false_ne_true⟩
      rw [(data_addCell_new _ _).1]
      rfl
  · refine .reading (·.data c) fun d => ?_
    have hheld : (code.isSome = true → isNew = true ∨ d.type = none ∧ d.manifestation = .real →
        T c) ∧ (isNew = true → d.type = none) → Confined agree (fun _ => True)
          (Stamped who.now T L) (fun s => s.data c = d) (holding who c .writable _)
            fun _ _ => True := fun hfact =>
      tol.holding (fun _ _ h => h) (confined_createHeld id type code c isNew d hfact.1 hfact.2)
    refine .intro (fun s h => ?_) fun hfact => (hheld hfact).weaken (fun _ h => h.1) fun _ _ h => h
    obtain ⟨hd, hadded, hold⟩ := h
    refine ⟨fun hsome hwhich => ?_, fun h => hd ▸ (hadded h).1⟩
    cases isNew with
    | true => exact (hadded rfl).2
    | false =>
      obtain ⟨hlook, hsame⟩ := hold rfl
      obtain ⟨htype, hman⟩ := hwhich.resolve_left Bool.false_ne_true
      have hd₀ : s₀.data c = d := hsame.symm.trans hd
      exact hT c (hcode hsome) hlook (hd₀ ▸ htype) (hd₀ ▸ hman)

/-! ## Deleting and disconnecting -/

/-- The vertex of a deletion has been stamped when the walk around it begins, so that it may
lose any arc after that. -/
theorem Walked.stamped {c : CellId} {g : Guard} {locks : LockTable} {rm : Removal} {s₁ : Store}
    (walk : Walked who (g :: G) c .all .any none rm (stripped who c s locks) s₁)
    (held : HeldRun who id s c g locks) (hs : s.Sound agree) (hg : s.Guarded G) :
    ((s₁.less rm.removed).data c).modified = who.now ∧
      Stamped who.now T L s (s₁.less rm.removed) := by
  obtain ⟨hs₀, _⟩ := held.sound hs hg
  obtain ⟨hs₁, _, hc₁⟩ := sound_stripped held hs hg
  have hnow : ((stripped who c s locks).data c).modified = who.now := by
    rw [stripped, data_modifyData_ite, if_pos ⟨rfl, (held.live hs).1.1⟩]
    rfl
  have hlocks : Stamped who.now T L s { s with locks } := stamped_of_cells rfl
  have hstart : Stamped who.now T L s (stripped who c s locks) :=
    hlocks.trans (stamped_modifyData hs₀ (keepsArcs_strip who.now) (.inl rfl))
  have hwalk : Stamped who.now T (fun v => v = c ∨ L v) (stripped who c s locks)
      (s₁.less rm.removed) := (walk.stamps T _ fun _ => .inl rfl).trans (stamped_less s₁ _)
  refine ⟨?_, hstart.trans (hwalk.of_modified hnow)⟩
  rcases hwalk.stamp c hc₁ (walk.sound hs₁ hc₁).2.2 with hnow' | hsame
  · exact hnow'
  · exact hsame.modified.trans hnow

theorem stamped_leftOver {c : CellId} (hs : s.Sound agree) (id : String) :
    Stamped who.now T L s (leftOver who id c s) := by
  have hmarked :
      Stamped who.now T L s (s.modifyData c fun d => { d with expires := some who.now }) :=
    stamped_modifyData hs (fun _ => ⟨rfl, rfl, rfl, rfl, rfl⟩) (.inr ⟨rfl, rfl, rfl, rfl, .inl rfl⟩)
  exact hmarked.trans (stamped_of_cells rfl)

theorem stamped_takenOut {c : CellId} (hs : s.Sound agree) (hc : s.Live c)
    (hnow : (s.data c).modified = who.now)
    (hdegree : (s.data c).degree = (s.data c).forwardOnlyIn) :
    Stamped who.now T L s (takenOut c s) := by
  rw [takenOut]
  split
  · exact stamped_modifyData hs (fun _ => ⟨rfl, rfl, rfl, rfl, rfl⟩) (.inl hnow)
  next hnone =>
    have hbare := hdegree.trans (Nat.eq_zero_of_not_pos hnone)
    exact stamped_of_steps (W := (c = ·)) (.single (.remove rfl hc hbare)) hs
      fun v hv _ hl => absurd hv (live_remove_iff.1 hl).2

/-- A deletion stamps its vertex and all neighbors of it. -/
theorem DeleteRun.stamped {r : Except Error Nat} (h : DeleteRun who id G s r s')
    (hs : s.Sound agree) (hg : s.Guarded G) : Stamped who.now T L s s' := by
  cases h with
  | refused => exact .refl s
  | missing => exact .refl s
  | incomplete held walk blocked =>
    obtain ⟨hs₁, hg₁, hc₁⟩ := sound_stripped held hs hg
    obtain ⟨hs₂, hg₂, _⟩ := walk.sound hs₁ hc₁
    exact ((walk.stamped held hs hg).2.trans (stamped_leftOver hs₂ id)).trans
      (stamped_drop (sound_leftOver hs₂ hg₂ id _).1 _)
  | complete held walk free =>
    obtain ⟨hs₁, hg₁, hc₁⟩ := sound_stripped held hs hg
    obtain ⟨hs₂, hg₂, hc₂⟩ := walk.sound hs₁ hc₁
    obtain ⟨hnow, hwalked⟩ := walk.stamped held hs hg
    have hdegree := walk.degree hs₁ hc₁ free
    obtain ⟨hs₃, _⟩ := sound_takenOut hs₂ hg₂ hc₂ hdegree
    exact (hwalked.trans (stamped_takenOut hs₂ hc₂ hnow hdegree)).trans (stamped_drop hs₃ _)

/-- A disconnect stamps its anchor and all neighbors from which it takes an arc, but not the
anchor for arcs to itself. -/
theorem DisconnectRun.stamped {anchor : String} {probe : Probe} {neighbor : Option String}
    {r : Except Error Nat} (h : DisconnectRun who anchor probe neighbor G s r s')
    (hs : s.Sound agree) (hg : s.Guarded G)
    (hL : ∀ c, s.lookup anchor = some c → neighbor.all (· == anchor) = true → L c) :
    Stamped who.now T L s s' := by
  cases h with
  | refused => exact .refl s
  | unfit => exact .refl s
  | missing => exact .refl s
  | @alone c g locks id held =>
    have hlocks : Stamped who.now T L s { s with locks } := stamped_of_cells rfl
    exact hlocks.trans (stamped_drop (held.sound hs hg).1 g)
  | @walked c g locks filter n rm s₁ held probed wanted walk =>
    obtain ⟨hs₁, _⟩ := held.sound hs hg
    obtain ⟨hc, hid⟩ := held.live hs
    have hlocks : Stamped who.now T L s { s with locks } := stamped_of_cells rfl
    have hwalk : Stamped who.now T L { s with locks } s₁ := by
      refine walk.stamps T L fun htoward => hL c held.found ?_
      cases neighbor with
      | none => rfl
      | some name =>
        obtain ⟨m, hm, rfl⟩ : ∃ m, s.lookup name = some m ∧ n = some m := by
          cases hfound : s.lookup name with
          | none => simp [hfound] at wanted
          | some m => exact ⟨m, rfl, by simpa [hfound] using wanted.symm⟩
        obtain ⟨hlive, hname⟩ := hs.placed.of_lookup hm
        have hsame : m = c := hs.placed.eq_of_key hlive hc (beq_iff_eq.1 htoward)
        rw [Option.all_some, ← hname, hsame, hid]
        exact BEq.rfl
    exact ((hlocks.trans hwalk).trans (stamped_less s₁ _)).trans
      (stamped_drop (walk.sound hs₁ hc).1 g)

/-! ## Expiring -/

theorem stamped_expire {item : Expiring} {outcome : Except Error (Nat × Nat)}
    (hs : s.Sound agree) (hg : s.Guarded G) (hrun : (expire who item).run s = (outcome, s'))
    (hL : ∀ c, s.Live c → ∀ r, item = .arc (s.cell c).id r (s.cell c).id → L c) :
    Stamped who.now T L s s' := by
  cases run_expire hs hg hrun with
  | vertex run => exact run.stamped hs hg
  | arc run =>
    refine run.stamped hs hg fun c hfound hself => ?_
    obtain ⟨hc, rfl⟩ := hs.placed.of_lookup hfound
    exact hL c hc _ (by rw [beq_iff_eq.1 hself])

theorem stamped_tryAll {items : List Expiring} (hs : s.Sound agree) (hg : s.Guarded G)
    (hL : ∀ c, s.Live c → ∀ r, .arc (s.cell c).id r (s.cell c).id ∈ items → L c) :
    Stamped who.now T L s (tryAll who items s) := by
  induction items generalizing s with
  | nil => exact .refl s
  | cons item rest ih =>
    obtain ⟨hs₁, hg₁⟩ := sound_item who hs hg item
    have hfirst : Stamped who.now T L s ((expire who item).run s).2 :=
      stamped_expire hs hg rfl fun c hc r e => hL c hc r (e ▸ List.mem_cons_self)
    have hswept : Swept (fun _ => True) (fun _ => True) s ((expire who item).run s).2 :=
      swept_expire hs hg rfl (fun _ _ _ => trivial) fun _ _ _ _ _ _ _ => trivial
    refine hfirst.trans (ih hs₁ hg₁ fun c hc r hm => ?_)
    have hc₀ := hswept.live c hc
    rw [hswept.cells.id c hc₀.1] at hm
    exact hL c hc₀ r (List.mem_cons_of_mem item hm)

/-- A pass stamps whatever it changes, but for vertices that lose arcs to themselves. -/
theorem stamped_runExpiration {time : UInt32} {r : Except Error ExpirationReport}
    (hs : s.Sound agree) (hg : s.Guarded G)
    (hL : ∀ c, s.Live c → ∀ r t,
      s.schedule.time? (.arc (s.cell c).id r (s.cell c).id) = some t → t ≤ time → L c)
    (hrun : (runExpiration who time).run s = (r, s')) : Stamped who.now T L s s' := by
  rcases run_runExpiration hrun with ⟨_, _, rfl⟩ | ⟨_, report, again, s₁, _, _, run, rfl⟩
  · exact .refl s'
  · obtain ⟨hs₀, hg₀⟩ := sound_popped hs hg time
    have hpopped : Stamped who.now T L s (popped time s) := stamped_of_cells rfl
    have htried : Stamped who.now T L (popped time s) s₁ := by
      rw [run.store]
      refine stamped_tryAll hs₀ hg₀ fun c hc r hm => ?_
      obtain ⟨⟨t, item⟩, hdue, hitem⟩ := List.mem_map.1 hm
      obtain ⟨htime, hle⟩ := Schedule.mem_popDue_iff.1 hdue
      exact hL c hc r t (hitem ▸ htime) hle
    exact (hpopped.trans htried).trans (stamped_of_cells rfl)

end Action

end Arcbase
