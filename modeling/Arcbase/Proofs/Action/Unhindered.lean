import Arcbase.Proofs.Action.Retrying
import Arcbase.Proofs.Action.Timely
set_option autoImplicit false

/-!
# Passes that nobody stands in the way of

While no handle is open a deletion or a disconnect is carried out whole.  A pass then tries
none of its items again (`ExpireRun.unhindered`), so that nothing is left of what was due
(`unexpired_runExpiration`).  A vertex that it deletes is gone, or sunk: virtual, and known
to forward-only arcs alone (`sunk_runExpiration`).
-/

namespace Arcbase

namespace Store

variable {agree : Agreement} {s s' : Store} {c : CellId} {V : CellId → Prop} {A : Place → Prop}

/-- A virtual vertex that only forward-only arcs reach. -/
structure Sunk (c : CellId) (s : Store) : Prop where
  virtual : (s.data c).manifestation = .virtual
  reached : (s.data c).degree ≠ 0
  inward : ∀ p ∈ s.arcs, p.touches (s.keyOf c) →
    p.terminal = s.keyOf c ∧ p.arc.forwardOnly = true

/-- A vertex that is in the graph only if some arc is around it, or if it is real. -/
def Upheld (c : CellId) (s : Store) : Prop :=
  s.Live c → (s.data c).manifestation = .virtual → (s.data c).degree ≠ 0

theorem Sunk.arc (h : Sunk c s) (hs : s.Sound agree) (hc : s.Live c) :
    ∃ p ∈ s.arcs, p.terminal = s.keyOf c ∧ p.arc.forwardOnly = true := by
  by_contra hnone
  refine h.reached ((degree_eq_zero_iff hs hc).2 fun p hp ht => hnone ?_)
  exact ⟨p, hp, h.inward p hp ht⟩

/-- A vertex without arcs of its own is known to forward-only arcs alone. -/
theorem inward_of_empty (hs : s.Sound agree) (hc : s.Live c) (hout : (s.data c).out = .empty)
    (hin : (s.data c).inbound = .empty) {p : PlacedArc} (hp : p ∈ s.arcs)
    (ht : p.touches (s.keyOf c)) : p.terminal = s.keyOf c ∧ p.arc.forwardOnly = true := by
  obtain ⟨i, hi, hk, hfound⟩ := (mem_arcs_iff_arcIn? hs).1 hp
  have hterminal : p.terminal = s.keyOf c := by
    refine ht.resolve_left fun hinitial => ?_
    obtain rfl := hs.placed.eq_of_key hi hc (hk.trans hinitial)
    rw [arcIn?, hout] at hfound
    cases hfound
  refine ⟨hterminal, ?_⟩
  cases hforward : p.arc.forwardOnly with
  | true => rfl
  | false =>
    rw [hterminal] at hfound
    have hpos := hs.paired.inbound_pos hi hc hfound hforward
    rw [hin] at hpos
    exact absurd hpos (Nat.lt_irrefl 0)

/-- What only loses arcs stays sunk as long as some are left. -/
theorem Sunk.swept (h : Sunk c s) (hswept : Swept V A s s') (hs : s.Sound agree)
    (hs' : s'.Sound agree) (hV : ¬ V c) (hc' : s'.Live c) (hu : Upheld c s') : Sunk c s' := by
  have hkey : s'.keyOf c = s.keyOf c := hswept.cells.key c (hswept.live c hc').1
  have hvirtual := ((hswept.kept c hc').resolve_left hV).1.trans h.virtual
  refine ⟨hvirtual, hu hc' hvirtual, fun p hp ht => ?_⟩
  rw [hkey] at ht ⊢
  exact h.inward p (hswept.arcs_subset hs hs' hp) ht

/-- Giving up the last guard on a vertex takes it out if it is an orphan. -/
theorem upheld_drop {g : Guard} (hg : s.Guarded [g]) (hw : g.hold = .writer)
    (h : g.item.slot ≠ c → Upheld c s) : Upheld c (s.drop g) := by
  intro hc hvirtual hzero
  obtain ⟨hlive, hnot⟩ := (live_drop_iff hg hw).1 hc
  rw [(fields_drop hg hw c).2.2.2] at hvirtual
  rw [degree_drop hg hw] at hzero
  by_cases hslot : g.item.slot = c
  · exact hnot ⟨hslot, rfl, hvirtual, hzero⟩
  · exact h hslot hlive hvirtual hzero

end Store

namespace Action

open Store

variable {agree : Agreement} {who : Caller} {s s' : Store} {id : String} {c d : CellId}
  {g : Guard} {locks : LockTable} {G : List Guard}

/-! ## What a deletion or a disconnect leaves of the locks -/

theorem locks_takenOut (c : CellId) (s : Store) : (takenOut c s).locks = s.locks := by
  rw [takenOut]
  split
  · rfl
  · exact locks_remove s c

/-- A vertex that is held for a walk is given up with the settings as they were. -/
theorem HeldRun.settings (held : HeldRun who id s c g locks) {s₁ : Store}
    (h : locks.SameSettings s₁.locks) : s.locks.SameSettings (s₁.drop g).locks := by
  rw [locks_drop]
  exact ((LockTable.sameSettings_acquire held.acquired).trans h).trans
    (LockTable.sameSettings_release _ g)

theorem DeleteRun.settings {r : Except Error Nat} (h : DeleteRun who id G s r s') :
    s.locks.SameSettings s'.locks := by
  cases h with
  | refused => exact .refl _
  | missing => exact .refl _
  | incomplete held walk => exact held.settings walk.run.severed.settings
  | complete held walk =>
    refine held.settings ?_
    rw [locks_takenOut]
    exact walk.run.severed.settings

theorem DisconnectRun.settings {anchor : String} {probe : Probe} {neighbor : Option String}
    {r : Except Error Nat} (h : DisconnectRun who anchor probe neighbor G s r s') :
    s.locks.SameSettings s'.locks := by
  cases h with
  | refused => exact .refl _
  | unfit => exact .refl _
  | missing => exact .refl _
  | alone held => exact held.settings (.refl _)
  | walked held _ _ walk => exact held.settings walk.run.severed.settings

/-! ## Nobody stands in the way -/

theorem not_refuses (hg : s.Guarded []) (hdown : s.locks.readonly = false)
    {cause : AccessError} : ¬ Refuses who id s cause := by
  rintro (⟨hup, _⟩ | ⟨c, _, hacq⟩)
  · rw [hdown] at hup
    cases hup
  · obtain ⟨p, hp⟩ := acquire_unguarded (c := c) hg hdown
      (fun _ hm => absurd hm List.not_mem_nil) who.thread
    rw [hp] at hacq
    cases hacq

/-- A walk is hindered only by guards on other vertices. -/
theorem Walked.unhindered {filter : ArcFilter} {direction : Direction}
    {toward : Option VertexKey} {rm : Removal}
    (h : Walked who [g] c filter direction toward rm s s') (hp : s.Placed) (hg : s.Guarded [g])
    (hslot : g.item.slot = c) (hdown : s.locks.readonly = false) : rm.cause = none := by
  have hnone : s.blocked who.thread c (s.groups c filter direction toward) = [] := by
    refine List.filter_eq_nil_iff.2 fun group _ hbusy => ?_
    simp only [obstructed, Bool.and_eq_true, decide_eq_true_eq] at hbusy
    obtain ⟨hne, hany⟩ := hbusy
    obtain ⟨n, hn, hfail⟩ := (Option.any_eq_true ..).1 hany
    have hnc : n ≠ c := fun e => hne (e ▸ hp.key_of_lookup hn).symm
    obtain ⟨p, hacq⟩ := acquire_unguarded hg hdown
      (fun g' hm e => hnc (e.symm.trans (List.mem_singleton.1 hm ▸ hslot))) who.thread
    rw [hacq] at hfail
    cases hfail
  have hcause := h.run.cause
  rw [hnone] at hcause
  cases hrm : rm.cause with
  | none => rfl
  | some cause =>
    rw [hrm] at hcause
    cases hcause

theorem DeleteRun.unhindered {r : Except Error Nat} (h : DeleteRun who id [] s r s')
    (hs : s.Sound agree) (hg : s.Guarded []) (hdown : s.locks.readonly = false) :
    Concluded r ∧ s'.schedule = s.schedule := by
  cases h with
  | refused refuses => exact absurd refuses (not_refuses hg hdown)
  | missing => exact ⟨concluded_ok, rfl⟩
  | @incomplete c g locks rm s₁ cause held walk blocked =>
    obtain ⟨hs₁, hg₁, _⟩ := sound_stripped held hs hg
    have hdown₁ : (stripped who c s locks).locks.readonly = false :=
      (LockTable.sameSettings_acquire held.acquired).readonly.trans hdown
    rw [walk.unhindered hs₁.placed hg₁ held.slot hdown₁] at blocked
    cases blocked
  | @complete c g locks rm s₁ held walk free =>
    obtain ⟨_, _, _, hcalm⟩ := live_walked hs hg held walk
    refine ⟨concluded_ok, ?_⟩
    exact ((hcalm.trans (calm_takenOut c _)).trans (calm_drop _ g)).schedule

theorem DisconnectRun.unhindered {anchor : String} {probe : Probe} {neighbor : Option String}
    {r : Except Error Nat} (h : DisconnectRun who anchor probe neighbor [] s r s')
    (hs : s.Sound agree) (hg : s.Guarded []) (hdown : s.locks.readonly = false) :
    Concluded r ∧ s'.schedule = s.schedule := by
  refine ⟨?_, h.sameDates.schedule⟩
  cases h with
  | refused refuses => exact absurd refuses (not_refuses hg hdown)
  | @unfit e fault =>
    intro _ he
    cases he
    obtain ⟨query, rfl⟩ := fault_of_filterOf fault
    rfl
  | missing =>
    intro _ he
    cases he
    rfl
  | alone => exact concluded_ok
  | @walked c g locks filter n rm s₁ held probed wanted walk =>
    obtain ⟨hs₁, hg₁⟩ := held.sound hs hg
    have hdown₁ : locks.readonly = false :=
      (LockTable.sameSettings_acquire held.acquired).readonly.trans hdown
    have hfree := walk.unhindered hs₁.placed hg₁ held.slot hdown₁
    rw [Removal.result, hfree]
    exact concluded_ok

theorem ItemRun.unhindered {item : Expiring} {outcome : Except Error (Nat × Nat)}
    (h : ItemRun who [] s item outcome s') (hs : s.Sound agree) (hg : s.Guarded [])
    (hdown : s.locks.readonly = false) :
    Concluded outcome ∧ s'.schedule = s.schedule ∧ s'.locks.readonly = false := by
  cases h with
  | vertex run =>
    obtain ⟨hend, hschedule⟩ := run.unhindered hs hg hdown
    exact ⟨hend.map _, hschedule, run.settings.readonly.trans hdown⟩
  | arc run =>
    obtain ⟨hend, hschedule⟩ := run.unhindered hs hg hdown
    exact ⟨hend.map _, hschedule, run.settings.readonly.trans hdown⟩

/-- No item is tried again, and none is scheduled. -/
theorem ExpireRun.unhindered {due again : List (UInt32 × Expiring)}
    (h : ExpireRun who due s again s') (hs : s.Sound agree) (hg : s.Guarded [])
    (hdown : s.locks.readonly = false) : again = [] ∧ s'.schedule = s.schedule := by
  induction h with
  | nil => exact ⟨rfl, rfl⟩
  | done first others ih =>
    obtain ⟨_, hschedule, hdown₁⟩ := (run_expire hs hg first).unhindered hs hg hdown
    obtain ⟨hs₁, hg₁⟩ := sound_expire hs hg first
    exact (ih hs₁ hg₁ hdown₁).imp_right (·.trans hschedule)
  | retried first retry others ih =>
    obtain ⟨hend, _, _⟩ := (run_expire hs hg first).unhindered hs hg hdown
    rw [hend _ rfl] at retry
    cases retry
  | dropped first final others ih =>
    obtain ⟨_, hschedule, hdown₁⟩ := (run_expire hs hg first).unhindered hs hg hdown
    obtain ⟨hs₁, hg₁⟩ := sound_expire hs hg first
    exact (ih hs₁ hg₁ hdown₁).imp_right (·.trans hschedule)

/-- Nothing is left that was to expire by the time of the pass. -/
theorem unexpired_runExpiration {time : UInt32} {report : ExpirationReport}
    (hs : s.Sound agree) (hg : s.Guarded []) (ht : s.Timely fun _ => none)
    (hrun : (runExpiration who time).run s = (.ok report, s')) {item : Expiring} {t : UInt32}
    (hm : s'.Marks item t) : time < t := by
  have hdue := (timely_runExpiration hs hg ht hrun).marked item t hm
  rcases run_runExpiration hrun with ⟨_, hr, _⟩ | ⟨hdown, report, again, s₁, _, _, run, rfl⟩
  · cases hr
  · obtain ⟨hs₀, hg₀⟩ := sound_popped hs hg time
    obtain ⟨rfl, hschedule⟩ := run.unhindered hs₀ hg₀ hdown
    rw [dueAt, Option.or_none, Schedule.time?_requeueAll, hschedule, popped,
      Schedule.time?_popDue] at hdue
    have htime : (s.schedule.time? item).filter (time < ·) = some t :=
      (Option.or_none ..).symm.trans hdue
    obtain ⟨_, hlate⟩ := Option.filter_eq_some_iff.1 htime
    simpa using hlate

/-! ## What a deletion leaves of a vertex -/

theorem data_takenOut_of_ne (hne : d ≠ c) (s : Store) :
    (takenOut d s).data c = s.data c ∧ (takenOut d s).cells.size = s.cells.size := by
  rw [takenOut]
  split
  · exact ⟨by rw [data_modifyData_ite, if_neg fun e => hne e.1], size_cells_modifyData ..⟩
  · exact ⟨(data_remove_of_ne hne).1, (sameDates_remove s d).count⟩

theorem upheld_of_data {s₁ : Store} (hdata : s₁.data c = s.data c)
    (hcount : s₁.cells.size = s.cells.size) (h : Upheld c s) : Upheld c s₁ := by
  intro hc hvirtual hzero
  rw [Store.Live, hcount, hdata] at hc
  rw [hdata] at hvirtual hzero
  exact h hc hvirtual hzero

/-- A walk takes out the orphans that it makes. -/
theorem Walked.upheld {filter : ArcFilter} {direction : Direction} {toward : Option VertexKey}
    {rm : Removal} (h : Walked who [g] d filter direction toward rm s s')
    (hslot : g.item.slot = d) (hne : d ≠ c) (hu : Upheld c s) :
    Upheld c (s'.less rm.removed) := by
  intro hc hvirtual hzero
  obtain ⟨hlive, hnot⟩ := (h.run.severed.live c).1 hc
  by_cases hfreed : c ∈ (s.clear who.thread d (s.groups d filter direction toward)).filterMap
      (s.otherCell? d)
  · refine hnot ⟨hfreed, ?_, hvirtual, hzero⟩
    exact List.filter_eq_nil_iff.2 fun g' hm => by
      rw [List.mem_singleton.1 hm, hslot]
      simpa using hne
  · have hdata : (s'.less rm.removed).data c = (s.less 0).data c :=
      Steps.data_eq h.run.severed.steps
        (fun e => e.elim (fun e => hne e.symm) hfreed) hlive.1
    rw [hdata] at hvirtual hzero
    exact hu hlive hvirtual hzero

theorem DeleteRun.upheld {r : Except Error Nat} (h : DeleteRun who id [] s r s')
    (hs : s.Sound agree) (hg : s.Guarded []) (hdown : s.locks.readonly = false)
    (hu : Upheld c s) : Upheld c s' := by
  have hend := (h.unhindered hs hg hdown).1
  cases h with
  | refused => exact hu
  | missing => exact hu
  | incomplete => exact absurd hend not_concluded_of_incomplete
  | @complete d g locks rm s₁ held walk free =>
    obtain ⟨hs₁, hg₁, hc₁⟩ := sound_stripped held hs hg
    obtain ⟨hs₂, hg₂, hc₂⟩ := walk.sound hs₁ hc₁
    obtain ⟨_, hg₃⟩ := sound_takenOut hs₂ hg₂ hc₂ (walk.degree hs₁ hc₁ free)
    refine upheld_drop hg₃ (held.writer hg) fun hslot => ?_
    have hne : d ≠ c := fun e => hslot (held.slot.trans e)
    obtain ⟨hdata, hcount⟩ := data_takenOut_of_ne hne (s₁.less rm.removed)
    refine upheld_of_data hdata hcount (walk.upheld held.slot hne ?_)
    refine upheld_of_data ?_ (size_cells_modifyData ..) hu
    rw [stripped, data_modifyData_ite, if_neg fun e => hne e.1]

theorem DisconnectRun.upheld {anchor : String} {probe : Probe} {neighbor : Option String}
    {r : Except Error Nat} (h : DisconnectRun who anchor probe neighbor [] s r s')
    (hs : s.Sound agree) (hg : s.Guarded []) (hu : Upheld c s) : Upheld c s' := by
  cases h with
  | refused => exact hu
  | unfit => exact hu
  | missing => exact hu
  | alone held => exact upheld_drop (held.sound hs hg).2 (held.writer hg) fun _ => hu
  | @walked d g locks filter n rm s₁ held probed wanted walk =>
    obtain ⟨hs₁, hg₁⟩ := held.sound hs hg
    obtain ⟨_, hg₂, _⟩ := walk.sound hs₁ (held.live hs).1
    refine upheld_drop hg₂ (held.writer hg) fun hslot => ?_
    exact walk.upheld held.slot (fun e => hslot (held.slot.trans e)) hu

/-- A deletion that is carried out leaves its vertex sunk, if it leaves it at all. -/
theorem DeleteRun.sunk {r : Except Error Nat} (h : DeleteRun who id [] s r s')
    (hs : s.Sound agree) (hg : s.Guarded []) (hdown : s.locks.readonly = false)
    (hfound : s.lookup id = some c) (hc' : s'.Live c) : Sunk c s' := by
  obtain ⟨hend, _⟩ := h.unhindered hs hg hdown
  cases h with
  | refused => exact absurd hend not_concluded_of_refused
  | missing absent =>
    rw [hfound] at absent
    cases absent
  | incomplete => exact absurd hend not_concluded_of_incomplete
  | @complete d g locks rm s₁ held walk free =>
    obtain rfl : d = c := Option.some.inj (held.found.symm.trans hfound)
    obtain ⟨hs₁, hg₁, hc₁⟩ := sound_stripped held hs hg
    obtain ⟨hs₂, hg₂, hc₂⟩ := walk.sound hs₁ hc₁
    have hdegree := walk.degree hs₁ hc₁ free
    obtain ⟨hs₃, hg₃⟩ := sound_takenOut hs₂ hg₂ hc₂ hdegree
    have hw := held.writer hg
    have htaken : Swept (fun _ => True) (fun _ => True) _ (takenOut d (s₁.less rm.removed)) :=
      swept_takenOut hs₂ hc₂ trivial hdegree
    have hdropped : Swept (fun _ => True) (fun _ => True) (takenOut d (s₁.less rm.removed)) _ :=
      swept_drop hs₃ hg₃ hw
    have hswept := htaken.trans hdropped
    have hlive := hdropped.live d hc'
    have hvirtual : ((takenOut d (s₁.less rm.removed)).data d).manifestation = .virtual := by
      rw [takenOut] at hlive ⊢
      split at hlive
      next hpos => rw [if_pos hpos, data_modifyData_ite, if_pos ⟨rfl, hc₂.1⟩]
      next => exact absurd rfl (live_remove_iff.1 hlive).2
    have hvirtual' := (fields_drop hg₃ hw d).2.2.2.trans hvirtual
    have hu := upheld_drop (c := d) hg₃ hw fun hne => absurd held.slot hne
    refine ⟨hvirtual', hu hc' hvirtual', fun p hp ht => ?_⟩
    have hkey := hswept.cells.key d hc₂.1
    have hs' := sound_drop hs₃ g
    rw [show ((takenOut d (s₁.less rm.removed)).drop g).keyOf d = (s₁.less rm.removed).keyOf d
      from hkey] at ht ⊢
    exact inward_of_empty hs₂ hc₂ (walk.run.out_eq_empty free hs₁ hs₂ hc₁)
      (walk.run.inbound_eq_empty free hs₁ hs₂ hc₁) (hswept.arcs_subset hs₂ hs' hp) ht

theorem ItemRun.swept {item : Expiring} {outcome : Except Error (Nat × Nat)}
    (h : ItemRun who G s item outcome s') (hs : s.Sound agree) (hg : s.Guarded G) :
    Swept (fun d => item = .vertex (s.cell d).id) (fun _ => True) s s' := by
  cases h with
  | vertex run => exact run.swept hs hg fun d _ hid => hid ▸ rfl
  | arc run => exact run.swept hs hg fun _ _ _ _ _ => trivial

/-- A vertex that is the item, or was sunk before, is sunk if it is left at all. -/
theorem ItemRun.sunk {item : Expiring} {outcome : Except Error (Nat × Nat)}
    (h : ItemRun who [] s item outcome s') (hs : s.Sound agree) (hs' : s'.Sound agree)
    (hg : s.Guarded []) (hdown : s.locks.readonly = false)
    (hsunk : item = .vertex (s.cell c).id ∨ (s.Live c → Sunk c s)) (hc' : s'.Live c) :
    Sunk c s' := by
  have hswept := h.swept hs hg
  have hc := hswept.live c hc'
  by_cases hitem : item = .vertex (s.cell c).id
  · subst hitem
    cases h with
    | vertex run => exact run.sunk hs hg hdown (hs.placed.lookup_of_live hc) hc'
  · have hbefore := hsunk.resolve_left hitem hc
    have hu : Upheld c s := fun _ _ => hbefore.reached
    refine hbefore.swept hswept hs hs' hitem hc' ?_
    cases h with
    | vertex run => exact run.upheld hs hg hdown hu
    | arc run => exact run.upheld hs hg hu

/-- Whatever vertex is among the items is gone in the end, or sunk. -/
theorem sunk_tryAll {items : List Expiring} (hs : s.Sound agree) (hg : s.Guarded [])
    (hdown : s.locks.readonly = false) (hc : c < s.cells.size)
    (hitem : .vertex (s.cell c).id ∈ items ∨ (s.Live c → Sunk c s))
    (hc' : (tryAll who items s).Live c) : Sunk c (tryAll who items s) := by
  induction items generalizing s with
  | nil => exact hitem.resolve_left List.not_mem_nil hc'
  | cons item rest ih =>
    obtain ⟨hs₁, hg₁⟩ := sound_item who hs hg item
    have run : ItemRun who [] s item _ ((expire who item).run s).2 := run_expire hs hg rfl
    have hcells := (run.swept hs hg).cells
    refine ih hs₁ hg₁ (run.unhindered hs hg hdown).2.2 (Nat.lt_of_lt_of_le hc hcells.count) ?_ hc'
    rw [hcells.id c hc]
    rcases hitem with hm | hsunk
    · rcases List.mem_cons.1 hm with he | hm
      · exact .inr (run.sunk hs hs₁ hg hdown (.inl he.symm))
      · exact .inl hm
    · exact .inr (run.sunk hs hs₁ hg hdown (.inr hsunk))

/-- After a pass, a vertex that was due is gone, or sunk. -/
theorem sunk_runExpiration {time t : UInt32} {report : ExpirationReport} (hs : s.Sound agree)
    (hg : s.Guarded []) (hrun : (runExpiration who time).run s = (.ok report, s'))
    (hc : c < s.cells.size) (hdue : s.schedule.time? (.vertex (s.cell c).id) = some t)
    (hle : t ≤ time) (hc' : s'.Live c) : Sunk c s' := by
  rcases run_runExpiration hrun with ⟨_, hr, _⟩ | ⟨hdown, report, again, s₁, _, _, run, rfl⟩
  · cases hr
  · obtain ⟨hs₀, hg₀⟩ := sound_popped hs hg time
    obtain rfl := run.store
    have hitem : .vertex (s.cell c).id ∈ (s.schedule.popDue time).1.map Prod.snd :=
      List.mem_map.2 ⟨_, Schedule.mem_popDue_iff.2 ⟨hdue, hle⟩, rfl⟩
    have hsunk := sunk_tryAll hs₀ hg₀ hdown hc (.inl hitem) hc'
    exact ⟨hsunk.virtual, hsunk.reached, hsunk.inward⟩

end Action

end Arcbase
