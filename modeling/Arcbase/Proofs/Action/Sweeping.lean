import Arcbase.Proofs.Action.Deleting
import Arcbase.Proofs.Action.Expiring
import Arcbase.Proofs.Schedule
set_option autoImplicit false

/-!
# Expiration passes are sweeps

A pass tries its items one after the other (`ExpireRun`).  A deletion sweeps the vertex of
its identifier, and a disconnect along a relationship the arcs of that relationship; so a
pass sweeps what it has been given (`swept_tryAll`), and it is given what is due
(`swept_runExpiration`).
-/

namespace Arcbase

namespace Store

/-- Whether a probe along a relationship is after the arcs with a code. -/
def Names (s : Store) (relationship : String) (code : LabelCode) : Prop :=
  relationship = Probe.wildcard ∨ s.labels.relationships.lookup? relationship = some code

theorem names_of_filterOf {s : Store} {relationship : String} {direction : Direction}
    {filter : ArcFilter} (h : s.filterOf (.along relationship direction) = .ok filter)
    {a : StoredArc} (ht : filter.test a = true) : s.Names relationship a.relationship := by
  by_cases hwild : relationship = Probe.wildcard
  · exact .inl hwild
  · refine .inr ?_
    simp only [filterOf, ArcFilter.ofProbe, Probe.along, Probe.withRelationship, hwild, if_false,
      Probe.any, Comparator.fault?] at h
    split at h
    next hnone => cases hnone
    next => cases h
    next label _ hlabel =>
      cases hlabel
      split at h
      next code hcode =>
        cases h
        rw [hcode]
        simp only [ArcFilter.test, RelationshipMatch.test, Bool.and_eq_true, beq_iff_eq] at ht
        rw [ht.1.1]
      next =>
        cases h
        simp [ArcFilter.test, RelationshipMatch.test] at ht

variable {s : Store} {me : Thread} {c : CellId} {p : Place}

/-- The places around a vertex are on one of its sides. -/
theorem anchored_of_mem_places {groups : List Group}
    (h : p ∈ (s.clear me c groups).flatMap (s.places c)) :
    c = p.cell ∨ s.keyOf c = p.toward := by
  obtain ⟨group, _, hp⟩ := List.mem_flatMap.1 h
  obtain ⟨seen, _, rfl⟩ := List.mem_map.1 hp
  rw [placeOf]
  split
  · exact .inr rfl
  · exact .inl rfl

/-- The places that a disconnect outward empties. -/
theorem outward_of_mem_places {agree : Agreement} (hs : s.Sound agree) (hc : s.Live c)
    {filter : ArcFilter} {toward : Option VertexKey}
    (h : p ∈ (s.clear me c (s.groups c filter .out toward)).flatMap (s.places c)) :
    c = p.cell ∧ toward.all (· == p.toward) = true ∧
      ∃ a, filter.test a = true ∧ a.relationship = p.relationship := by
  obtain ⟨n, ⟨d, a⟩, hseen, _, rfl⟩ :=
    (mem_flatMap_places_iff fun key => !s.obstructed me c key).1 h
  obtain ⟨⟨rfl, _, hm⟩ | ⟨_, hin, _⟩, ht, hn⟩ := mem_aimedAt_iff.1 hseen
  · obtain ⟨m, hlive, rfl⟩ := hs.paired.known c hc n (.inl (List.ne_nil_of_mem hm))
    have hlookup : s.lookupKey (s.keyOf m) = some m := hs.placed.lookup_key hlive
    rw [hlookup, Option.getD_some, placeOf, if_neg (by simp)]
    exact ⟨rfl, hn, a, ht, rfl⟩
  · cases hin

end Store

namespace Action

open Store

variable {agree : Agreement} {G : List Guard} {who : Caller} {s s' : Store}
  {V : CellId → Prop} {A : Place → Prop}

section Walk

variable {c : CellId} {filter : ArcFilter} {direction : Direction} {toward : Option VertexKey}
  {rm : Removal}

/-- What is left when the arcs have been counted is in order. -/
theorem Walked.sound (h : Walked who G c filter direction toward rm s s') (hs : s.Sound agree)
    (hc : s.Live c) :
    (s'.less rm.removed).Sound agree ∧ (s'.less rm.removed).Guarded G ∧
      (s'.less rm.removed).Live c :=
  ⟨Steps.sound h.run.severed.steps hs, h.run.severed.guarded.less _,
    h.run.severed.live_anchor hc⟩

theorem Walked.swept (h : Walked who G c filter direction toward rm s s')
    (hspent : ∀ p ∈ (s.clear who.thread c (s.groups c filter direction toward)).flatMap
      (s.places c), s.Spent V A p) : Swept V A s (s'.less rm.removed) :=
  (h.run.severed.swept h.dates hspent).trans (swept_of_cells rfl rfl)

/-- After a whole removal only forward-only arcs are left, those toward the vertex. -/
theorem Walked.degree (h : Walked who G c .all .any none rm s s') (hs : s.Sound agree)
    (hc : s.Live c) (hall : rm.cause = none) :
    ((s'.less rm.removed).data c).degree = ((s'.less rm.removed).data c).forwardOnlyIn := by
  have hs' := (h.sound hs hc).1
  have hout : ((s'.less rm.removed).data c).out = .empty := h.run.out_eq_empty hall hs hs' hc
  have hin : ((s'.less rm.removed).data c).inbound = .empty := h.run.inbound_eq_empty hall hs hs' hc
  rw [VertexData.degree, VertexData.indegree, VertexData.outdegree, hout, hin]
  exact Nat.zero_add _

end Walk

theorem sound_leftOver (hs : s.Sound agree) (hg : s.Guarded G) (id : String) (c : CellId) :
    (leftOver who id c s).Sound agree ∧ (leftOver who id c s).Guarded G := by
  have st : Steps (fun _ => True) s (leftOver who id c s) := by
    refine .tail ?_ (.schedule _ _)
    refine .single (.attributes (f := fun d => { d with expires := some who.now }) trivial ?_)
    exact fun _ => ⟨rfl, rfl, rfl, rfl, rfl⟩
  exact ⟨Steps.sound st hs, hg.steps st rfl⟩

theorem swept_leftOver {c : CellId} (hV : V c) (id : String) :
    Swept V A s (leftOver who id c s) := by
  have hmarked : Swept V A s (s.modifyData c fun d => { d with expires := some who.now }) :=
    swept_modifyData (fun _ => ⟨rfl, rfl, rfl, rfl, rfl⟩) (.inl hV)
  exact hmarked.trans (swept_of_cells rfl rfl)

theorem sound_takenOut {c : CellId} (hs : s.Sound agree) (hg : s.Guarded G) (hc : s.Live c)
    (hdegree : (s.data c).degree = (s.data c).forwardOnlyIn) :
    (takenOut c s).Sound agree ∧ (takenOut c s).Guarded G := by
  have st : Steps (fun _ => True) s (takenOut c s) ∧ (takenOut c s).locks = s.locks := by
    rw [takenOut]
    split
    · exact ⟨.single (.attributes trivial fun _ => ⟨rfl, rfl, rfl, rfl, rfl⟩), rfl⟩
    next hnone =>
      have hbare := hdegree.trans (Nat.eq_zero_of_not_pos hnone)
      exact ⟨.single (.remove trivial hc hbare), locks_remove s c⟩
  exact ⟨Steps.sound st.1 hs, hg.steps st.1 st.2⟩

theorem swept_takenOut {c : CellId} (hs : s.Sound agree) (hc : s.Live c) (hV : V c)
    (hdegree : (s.data c).degree = (s.data c).forwardOnlyIn) : Swept V A s (takenOut c s) := by
  rw [takenOut]
  split
  · exact swept_modifyData (fun _ => ⟨rfl, rfl, rfl, rfl, rfl⟩) (.inl hV)
  next hnone =>
    exact swept_remove hs hc hV (hdegree.trans (Nat.eq_zero_of_not_pos hnone))

/-- A deletion sweeps the vertex of its identifier. -/
theorem DeleteRun.swept {id : String} {r : Except Error Nat} (h : DeleteRun who id G s r s')
    (hs : s.Sound agree) (hg : s.Guarded G)
    (hV : ∀ c, s.Live c → (s.cell c).id = id → V c) : Swept V A s s' := by
  have hwalked : ∀ {c : CellId} {g : Guard} {locks : LockTable} {rm : Removal} {s₁ : Store},
      HeldRun who id s c g locks →
        Walked who (g :: G) c .all .any none rm (stripped who c s locks) s₁ →
          V c ∧ Swept V A s (s₁.less rm.removed) := by
    intro c g locks rm s₁ held walk
    obtain ⟨hc, hid⟩ := held.live hs
    have hlive := (sound_stripped held hs hg).2.2
    have hVc := hV c hc hid
    have hlocks : Swept V A s { s with locks } := swept_of_cells rfl rfl
    have hstart : Swept V A s (stripped who c s locks) :=
      hlocks.trans (swept_modifyData (keepsArcs_strip who.now) (.inr fun _ => ⟨rfl, rfl⟩))
    refine ⟨hVc, hstart.trans (walk.swept fun p hp => .inr ⟨c, hlive, hVc, ?_⟩)⟩
    exact anchored_of_mem_places hp
  cases h with
  | refused => exact .refl s
  | missing => exact .refl s
  | incomplete held walk blocked =>
    obtain ⟨hs₁, hg₁, hc₁⟩ := sound_stripped held hs hg
    obtain ⟨hs₂, hg₂, _⟩ := walk.sound hs₁ hc₁
    obtain ⟨hVc, hswept⟩ := hwalked held walk
    obtain ⟨hs₃, hg₃⟩ := sound_leftOver hs₂ hg₂ id _
    exact (hswept.trans (swept_leftOver hVc id)).trans (swept_drop hs₃ hg₃ (held.writer hg))
  | complete held walk free =>
    obtain ⟨hs₁, hg₁, hc₁⟩ := sound_stripped held hs hg
    obtain ⟨hs₂, hg₂, hc₂⟩ := walk.sound hs₁ hc₁
    have hdegree := walk.degree hs₁ hc₁ free
    obtain ⟨hVc, hswept⟩ := hwalked held walk
    obtain ⟨hs₃, hg₃⟩ := sound_takenOut hs₂ hg₂ hc₂ hdegree
    exact (hswept.trans (swept_takenOut hs₂ hc₂ hVc hdegree)).trans
      (swept_drop hs₃ hg₃ (held.writer hg))

/-- A disconnect outward sweeps the arcs of its relationship from one vertex to another. -/
theorem DisconnectRun.swept {initial relationship terminal : String} {r : Except Error Nat}
    (h : DisconnectRun who initial (.along relationship .out) (some terminal) G s r s')
    (hs : s.Sound agree) (hg : s.Guarded G)
    (hA : ∀ p : Place, s.Live p.cell → (s.cell p.cell).id = initial → p.toward = .of terminal →
      s.Names relationship p.relationship → A p) : Swept V A s s' := by
  cases h with
  | refused => exact .refl s
  | unfit => exact .refl s
  | missing => exact .refl s
  | @alone c g locks id held =>
    obtain ⟨hs₁, hg₁⟩ := held.sound hs hg
    have hlocks : Swept V A s { s with locks } := swept_of_cells rfl rfl
    exact hlocks.trans (swept_drop hs₁ hg₁ (held.writer hg))
  | @walked c g locks filter n rm s₁ held probed wanted walk =>
    obtain ⟨hs₁, hg₁⟩ := held.sound hs hg
    obtain ⟨hc, hid⟩ := held.live hs
    obtain ⟨hs₂, hg₂, _⟩ := walk.sound hs₁ hc
    obtain ⟨m, hm, rfl⟩ : ∃ m, s.lookup terminal = some m ∧ n = some m := by
      cases hfound : s.lookup terminal with
      | none => simp [hfound] at wanted
      | some m => exact ⟨m, rfl, by simpa [hfound] using wanted.symm⟩
    have hkey : s.keyOf m = .of terminal := by
      obtain ⟨hlive, hname⟩ := hs.placed.of_lookup hm
      rw [keyOf, hs.placed.keyed m hlive.1, hname]
    have hwalk : Swept V A { s with locks } (s₁.less rm.removed) := by
      refine walk.swept fun p hp => .inl ?_
      have hdirection : (Probe.along relationship .out).direction = .out := by
        rw [Probe.along, Probe.withRelationship]
      rw [hdirection] at hp
      obtain ⟨hcell, htoward, a, htest, hcode⟩ := outward_of_mem_places hs₁ hc hp
      have hkey' : p.toward = s.keyOf m := (beq_iff_eq.1 htoward).symm
      refine hA p (hcell ▸ hc) (hcell ▸ hid) (hkey'.trans hkey) ?_
      exact hcode ▸ names_of_filterOf probed htest
    have hlocks : Swept V A s { s with locks } := swept_of_cells rfl rfl
    exact (hlocks.trans hwalk).trans (swept_drop hs₂ hg₂ (held.writer hg))

/-! ## Passes -/

/-- The items of a pass, tried one after the other; the last list is that of the items to
be tried again. -/
inductive ExpireRun (who : Caller) :
    List (UInt32 × Expiring) → Store → List (UInt32 × Expiring) → Store → Prop where
  | nil (s : Store) : ExpireRun who [] s [] s
  | done {time : UInt32} {item : Expiring} {rest again : List (UInt32 × Expiring)}
      {s s₁ s₂ : Store} {x : Nat × Nat} (first : (expire who item).run s = (.ok x, s₁))
      (others : ExpireRun who rest s₁ again s₂) :
      ExpireRun who ((time, item) :: rest) s again s₂
  | retried {time : UInt32} {item : Expiring} {rest again : List (UInt32 × Expiring)}
      {s s₁ s₂ : Store} {e : Error} (first : (expire who item).run s = (.error e, s₁))
      (retry : (e.isRetrySafe || e.partialCount.isSome) = true)
      (others : ExpireRun who rest s₁ again s₂) :
      ExpireRun who ((time, item) :: rest) s ((time, item) :: again) s₂
  | dropped {time : UInt32} {item : Expiring} {rest again : List (UInt32 × Expiring)}
      {s s₁ s₂ : Store} {e : Error} (first : (expire who item).run s = (.error e, s₁))
      (final : (e.isRetrySafe || e.partialCount.isSome) = false)
      (others : ExpireRun who rest s₁ again s₂) :
      ExpireRun who ((time, item) :: rest) s again s₂

theorem run_expireAll {due : List (UInt32 × Expiring)}
    {r : Except Error (ExpirationReport × List (UInt32 × Expiring))}
    (hrun : (expireAll who due).run s = (r, s')) :
    ∃ report again, r = .ok (report, again) ∧ ExpireRun who due s again s' := by
  induction due generalizing s s' r with
  | nil =>
    cases hrun
    exact ⟨_, _, rfl, .nil _⟩
  | cons p rest ih =>
    obtain ⟨time, item⟩ := p
    rw [expireAll, run_bind, attempt, run_ofFun] at hrun
    cases hfirst : (expire who item).run s with
    | mk outcome s₁ =>
      rw [hfirst] at hrun
      dsimp only at hrun
      rw [run_bind] at hrun
      cases hothers : (expireAll who rest).run s₁ with
      | mk r₂ s₂ =>
        obtain ⟨report, again, rfl, others⟩ := ih hothers
        rw [hothers] at hrun
        cases outcome with
        | ok x =>
          cases hrun
          exact ⟨_, _, rfl, .done hfirst others⟩
        | error e =>
          dsimp only at hrun
          split at hrun
          next hretry =>
            cases hrun
            exact ⟨_, _, rfl, .retried hfirst hretry others⟩
          next hfinal =>
            cases hrun
            exact ⟨_, _, rfl, .dropped hfirst (by simpa using hfinal) others⟩

/-- An item is tried by a deletion or by a disconnect. -/
inductive ItemRun (who : Caller) (G : List Guard) (s : Store) :
    Expiring → Except Error (Nat × Nat) → Store → Prop where
  | vertex {id : String} {r : Except Error Nat} {s' : Store} (run : DeleteRun who id G s r s') :
      ItemRun who G s (.vertex id) (r.map fun n => (n, 0)) s'
  | arc {initial relationship terminal : String} {r : Except Error Nat} {s' : Store}
      (run : DisconnectRun who initial (.along relationship .out) (some terminal) G s r s') :
      ItemRun who G s (.arc initial relationship terminal) (r.map fun n => (0, n)) s'

theorem run_expire {item : Expiring} {outcome : Except Error (Nat × Nat)} (hs : s.Sound agree)
    (hg : s.Guarded G) (hrun : (expire who item).run s = (outcome, s')) :
    ItemRun who G s item outcome s' := by
  cases item with
  | vertex id =>
    rw [expire, run_bind] at hrun
    cases hdelete : (delete who id).run s with
    | mk r s₁ =>
      have run := run_delete hs hg hdelete
      rw [hdelete] at hrun
      cases r <;> (cases hrun; exact .vertex run)
  | arc initial relationship terminal =>
    rw [expire, run_bind] at hrun
    cases hdisconnect :
      (disconnect who initial (.along relationship .out) (some terminal)).run s with
    | mk r s₁ =>
      have run := run_disconnect hs hg hdisconnect
      rw [hdisconnect] at hrun
      cases r <;> (cases hrun; exact .arc run)

/-- What is swept by the item of a pass. -/
theorem swept_expire {item : Expiring} {outcome : Except Error (Nat × Nat)}
    (hs : s.Sound agree) (hg : s.Guarded G) (hrun : (expire who item).run s = (outcome, s'))
    (hV : ∀ c, s.Live c → item = .vertex (s.cell c).id → V c)
    (hA : ∀ p : Place, s.Live p.cell → ∀ r j, item = .arc (s.cell p.cell).id r j →
      p.toward = .of j → s.Names r p.relationship → A p) : Swept V A s s' := by
  cases run_expire hs hg hrun with
  | vertex run => exact run.swept hs hg fun c hc hid => hV c hc (hid ▸ rfl)
  | arc run => exact run.swept hs hg fun p hc hid => hA p hc _ _ (hid ▸ rfl)

/-- What an item leaves is in order. -/
theorem sound_expire {item : Expiring} {outcome : Except Error (Nat × Nat)} (hs : s.Sound agree)
    (hg : s.Guarded G) (hrun : (expire who item).run s = (outcome, s')) :
    s'.Sound agree ∧ s'.Guarded G := by
  obtain ⟨st, hr⟩ := orderly_expire (W := fun _ => True) (fun _ _ => trivial) item
    s outcome s' hs hg trivial hrun
  refine ⟨Steps.sound st hs, ?_⟩
  cases outcome with
  | ok x => exact hr.1
  | error e => exact hr

/-- The store after items have been tried. -/
def tryAll (who : Caller) (items : List Expiring) (s : Store) : Store :=
  items.foldl (fun s item => ((expire who item).run s).2) s

/-- A pass leaves the store after its items have been tried. -/
theorem ExpireRun.store {due again : List (UInt32 × Expiring)} (h : ExpireRun who due s again s') :
    s' = tryAll who (due.map Prod.snd) s := by
  induction h with
  | nil => rfl
  | done first _ ih => rw [ih, List.map_cons, tryAll, tryAll, List.foldl_cons, first]
  | retried first _ _ ih => rw [ih, List.map_cons, tryAll, tryAll, List.foldl_cons, first]
  | dropped first _ _ ih => rw [ih, List.map_cons, tryAll, tryAll, List.foldl_cons, first]

theorem sound_item (who : Caller) (hs : s.Sound agree) (hg : s.Guarded G) (item : Expiring) :
    ((expire who item).run s).2.Sound agree ∧ ((expire who item).run s).2.Guarded G :=
  sound_expire hs hg rfl

theorem swept_tryAll {items : List Expiring} (hs : s.Sound agree) (hg : s.Guarded G)
    (hV : ∀ c, s.Live c → .vertex (s.cell c).id ∈ items → V c)
    (hA : ∀ p : Place, s.Live p.cell → ∀ r j, .arc (s.cell p.cell).id r j ∈ items →
      p.toward = .of j → s.Names r p.relationship → A p) : Swept V A s (tryAll who items s) := by
  induction items generalizing s with
  | nil => exact .refl s
  | cons item rest ih =>
    obtain ⟨hs₁, hg₁⟩ := sound_item who hs hg item
    have hswept : Swept V A s ((expire who item).run s).2 := swept_expire hs hg rfl
      (fun c hc e => hV c hc (e ▸ List.mem_cons_self))
      fun p hc r j e => hA p hc r j (e ▸ List.mem_cons_self)
    -- what the other items may sweep, they might have swept before the first one too
    refine hswept.trans (ih hs₁ hg₁ (fun c hc hm => ?_) fun p hc r j hm htoward hnames => ?_)
    · have hc₀ := hswept.live c hc
      rw [hswept.cells.id c hc₀.1] at hm
      exact hV c hc₀ (List.mem_cons_of_mem _ hm)
    · have hc₀ := hswept.live p.cell hc
      rw [hswept.cells.id p.cell hc₀.1] at hm
      rw [Names, hswept.labels] at hnames
      exact hA p hc₀ r j (List.mem_cons_of_mem _ hm) htoward hnames

/-- The store when a pass begins to try its items. -/
def popped (time : UInt32) (s : Store) : Store :=
  { s with schedule := (s.schedule.popDue time).2 }

theorem sound_popped (hs : s.Sound agree) (hg : s.Guarded G) (time : UInt32) :
    (popped time s).Sound agree ∧ (popped time s).Guarded G :=
  ⟨(Step.schedule (W := fun _ => True) s _).sound hs, hg.accounts, hg.item⟩

/-- A pass that is not refused. -/
theorem run_runExpiration {time : UInt32} {r : Except Error ExpirationReport}
    (hrun : (runExpiration who time).run s = (r, s')) :
    s.locks.readonly = true ∧ r = .error (.access .readonlyGraph) ∧ s' = s ∨
      s.locks.readonly = false ∧ ∃ report again s₁, r = .ok report ∧
        report.requeued = again.length ∧
        ExpireRun who (s.schedule.popDue time).1 (popped time s) again s₁ ∧
        s' = { s₁ with schedule := s₁.schedule.requeueAll again } := by
  rw [runExpiration, run_bind, run_checkWritable] at hrun
  cases hreadonly : s.locks.readonly with
  | true =>
    rw [hreadonly, if_pos rfl] at hrun
    cases hrun
    exact .inl ⟨rfl, rfl, rfl⟩
  | false =>
    rw [hreadonly, if_neg Bool.false_ne_true] at hrun
    simp only [run_bind, run_ofFun] at hrun
    cases hall : (expireAll who (s.schedule.popDue time).1).run (popped time s) with
    | mk r₁ s₁ =>
      obtain ⟨report, again, rfl, run⟩ := run_expireAll hall
      rw [popped] at hall
      rw [hall] at hrun
      cases hrun
      exact .inr ⟨rfl, _, again, s₁, rfl, rfl, run, rfl⟩

/-- What is swept by a pass is due. -/
theorem swept_runExpiration {time : UInt32} {r : Except Error ExpirationReport}
    (hs : s.Sound agree) (hg : s.Guarded G) (hrun : (runExpiration who time).run s = (r, s'))
    (hV : ∀ c, s.Live c → ∀ t, s.schedule.time? (.vertex (s.cell c).id) = some t → t ≤ time → V c)
    (hA : ∀ p : Place, s.Live p.cell → ∀ r j t,
      s.schedule.time? (.arc (s.cell p.cell).id r j) = some t → t ≤ time → p.toward = .of j →
        s.Names r p.relationship → A p) : Swept V A s s' := by
  rcases run_runExpiration hrun with ⟨_, _, rfl⟩ | ⟨_, report, again, s₁, _, _, run, rfl⟩
  · exact .refl s'
  · obtain ⟨hs₀, hg₀⟩ := sound_popped hs hg time
    have hpopped : Swept V A s (popped time s) := swept_of_cells rfl rfl
    have hrequeued : Swept V A s₁ { s₁ with schedule := s₁.schedule.requeueAll again } :=
      swept_of_cells rfl rfl
    refine (hpopped.trans ?_).trans hrequeued
    rw [run.store]
    refine swept_tryAll hs₀ hg₀ (fun c hc hm => ?_) fun p hc r j hm htoward hnames => ?_
    · obtain ⟨⟨t, item⟩, hdue, hitem⟩ := List.mem_map.1 hm
      obtain ⟨htime, hle⟩ := Schedule.mem_popDue_iff.1 hdue
      exact hV c hc t (hitem ▸ htime) hle
    · obtain ⟨⟨t, item⟩, hdue, hitem⟩ := List.mem_map.1 hm
      obtain ⟨htime, hle⟩ := Schedule.mem_popDue_iff.1 hdue
      exact hA p hc r j t (hitem ▸ htime) hle htoward hnames

/-- A pass only takes away. -/
theorem swept_pass {time : UInt32} {r : Except Error ExpirationReport} (hs : s.Sound agree)
    (hg : s.Guarded G) (hrun : (runExpiration who time).run s = (r, s')) :
    Swept (fun _ => True) (fun _ => True) s s' :=
  swept_runExpiration hs hg hrun (fun _ _ _ _ _ => trivial) fun _ _ _ _ _ _ _ _ _ => trivial

end Action

end Arcbase
