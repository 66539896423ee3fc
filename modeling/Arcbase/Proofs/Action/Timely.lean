import Arcbase.Proofs.Action.Sweeping
import Arcbase.Proofs.Store.Timely
set_option autoImplicit false

/-!
# Passes lose no expiration

A deletion or a disconnect takes things away; only a deletion that ends incomplete gives a
time, and schedules it.  A deletion or a disconnect that was carried out leaves nothing of
its item behind, and neither does one that need not be tried again (`ItemRun.timely`).  So
while a pass is under way everything that expires is in the schedule or among the items that
are still to be tried, and putting the rest of them back makes the schedule complete again
(`ExpireRun.timely`).
-/

namespace Arcbase

namespace Store

variable {s : Store} {relationship : String} {direction : Direction}

/-- A probe along a relationship finds all of its arcs. -/
theorem test_of_names {filter : ArcFilter}
    (h : s.filterOf (.along relationship direction) = .ok filter) {a : StoredArc}
    (hnames : s.Names relationship a.relationship) : filter.test a = true := by
  simp only [filterOf, ArcFilter.ofProbe, Probe.along, Probe.withRelationship, Probe.any,
    Comparator.fault?] at h
  by_cases hwild : relationship = Probe.wildcard
  · rw [if_pos hwild] at h
    cases h
    rfl
  · rw [if_neg hwild] at h
    split at h
    next => cases h; rfl
    next => cases h
    next label _ hlabel =>
      cases hlabel
      rw [hnames.resolve_left hwild] at h
      cases h
      simp [ArcFilter.test, RelationshipMatch.test, Comparator.test]

theorem fault_of_along {e : Error}
    (h : s.filterOf (.along relationship direction) = .error e) : relationship = "" := by
  simp only [filterOf, ArcFilter.ofProbe, Probe.along, Probe.withRelationship, Probe.any,
    Comparator.fault?] at h
  by_cases hwild : relationship = Probe.wildcard
  · rw [if_pos hwild] at h
    cases h
  · rw [if_neg hwild] at h
    split at h
    next => cases h
    next hempty => exact Option.some.inj hempty
    next => split at h <;> cases h

theorem not_marks_vertex {id : String} (hp : s.Placed) (h : s.lookup id = none)
    (time : UInt32) : ¬ s.Marks (.vertex id) time := by
  intro hm
  cases hm with
  | vertex live =>
    rw [hp.lookup_of_live live] at h
    cases h

theorem not_marks_arc {initial terminal : String} (hp : s.Placed)
    (h : s.lookup initial = none ∨ s.lookup terminal = none) (time : UInt32) :
    ¬ s.Marks (.arc initial relationship terminal) time := by
  intro hm
  cases hm with
  | arc hi ht =>
    rw [hp.lookup_of_live hi, hp.lookup_of_live ht] at h
    exact h.elim (fun e => nomatch e) fun e => nomatch e

end Store

namespace Action

open Store

variable {agree : Agreement} {pending : Expiring → Option UInt32} {G : List Guard}
  {who : Caller} {s s' : Store} {id : String} {c : CellId} {g : Guard} {locks : LockTable}

/-! ## Walks -/

section Walk

variable {filter : ArcFilter} {direction : Direction} {toward : Option VertexKey} {rm : Removal}

theorem Walked.calm (h : Walked who G c filter direction toward rm s s') :
    s.Calm (s'.less rm.removed) :=
  (h.swept fun _ _ => .inl trivial).calm h.dates.schedule

/-- A walk that nothing stood in the way of leaves no arc that it was after. -/
theorem Walked.arcAt?_eq_none (h : Walked who G c filter direction toward rm s s')
    (hall : rm.cause = none) (hs : s.Sound agree) (hc : s.Live c) {t : CellId} (ht : s.Live t)
    (hout : direction.includesOut = true) (htoward : toward.all (· == s.keyOf t) = true)
    {code : LabelCode} {kind : ArcKind}
    (htest : ∀ a : StoredArc, a.relationship = code → a.kind = kind → filter.test a = true) :
    s'.arcAt? c t code kind = none := by
  cases hfound : s'.arcAt? c t code kind with
  | none => rfl
  | some a =>
    have hkey : s'.keyOf t = s.keyOf t := h.run.severed.extends.key t ht.1
    have hplace : s'.arcIn? ⟨c, s.keyOf t, code, kind⟩ = some a := hkey ▸ hfound
    have hbefore := h.run.arcIn?_of_some hplace
    obtain ⟨_, hr, hk⟩ := ArcIndex.get?_slot hbefore
    have hseen : (s.keyOf t, Direction.out, a) ∈ s.aimedAt c filter direction toward := by
      refine mem_aimedAt_iff.2 ⟨.inl ⟨rfl, hout, ?_⟩, htest a hr hk, htoward⟩
      exact (ArcIndex.mem_arcsTo_iff (hs.paired.valid c hc).1 _ a).2 (by rw [hr, hk]; exact hbefore)
    have hnone := h.run.arcIn?_seen hall hs.placed ht hseen
    rw [placeOf, if_neg (by simp), hr, hk, hplace] at hnone
    cases hnone

end Walk

/-! ## Deleting -/

theorem calm_stripped (who : Caller) (c : CellId) (s : Store) (locks : LockTable) :
    s.Calm (stripped who c s locks) := by
  have hlocks : s.Calm { s with locks } := calm_of_cells rfl rfl rfl
  exact hlocks.trans (calm_modifyData (keepsArcs_strip who.now) fun _ _ he => he)

theorem calm_takenOut (c : CellId) (s : Store) : s.Calm (takenOut c s) := by
  rw [takenOut]
  split
  · exact calm_modifyData (fun _ => ⟨rfl, rfl, rfl, rfl, rfl⟩) fun _ _ he =>
      absurd he.symm (Option.some_ne_none _)
  · exact calm_remove s c

/-- A vertex that has been taken out does not expire, be it virtual or gone. -/
theorem expires_takenOut (hc : s.Live c) (hc' : (takenOut c s).Live c) :
    ((takenOut c s).data c).expires = none := by
  rw [takenOut] at hc' ⊢
  split at hc'
  next hpos => rw [if_pos hpos, data_modifyData_ite, if_pos ⟨rfl, hc.1⟩]
  next => exact absurd rfl (live_remove_iff.1 hc').2

/-- The vertex of a deletion when the walk around it is over. -/
theorem live_walked {rm : Removal} {s₁ : Store} (hs : s.Sound agree) (hg : s.Guarded G)
    (held : HeldRun who id s c g locks)
    (walk : Walked who (g :: G) c .all .any none rm (stripped who c s locks) s₁) :
    (s₁.less rm.removed).Sound agree ∧ (s₁.less rm.removed).Live c ∧
      ((s₁.less rm.removed).cell c).id = id ∧ s.Calm (s₁.less rm.removed) := by
  obtain ⟨hs₁, _, hc₁⟩ := sound_stripped held hs hg
  obtain ⟨hs₂, _, hc₂⟩ := walk.sound hs₁ hc₁
  obtain ⟨hc, hid⟩ := held.live hs
  have hcalm := (calm_stripped who c s locks).trans walk.calm
  exact ⟨hs₂, hc₂, (hcalm.cells.id c hc.1).trans hid, hcalm⟩

theorem DeleteRun.timely {r : Except Error Nat} (h : DeleteRun who id G s r s')
    (hs : s.Sound agree) (hg : s.Guarded G) (ht : s.Timely pending) :
    s'.Timely pending ∧ ∀ n, r = .ok n → ∀ time, ¬ s'.Marks (.vertex id) time := by
  cases h with
  | refused => exact ⟨ht, fun _ hr => nomatch hr⟩
  | missing absent => exact ⟨ht, fun _ _ => not_marks_vertex hs.placed absent⟩
  | @incomplete c g locks rm s₁ cause held walk blocked =>
    obtain ⟨hs₂, hc₂, hid, hcalm⟩ := live_walked hs hg held walk
    have hmarked := (ht.calm hcalm).mark hs₂.placed hc₂ who.now
    rw [hid] at hmarked
    exact ⟨hmarked.calm (calm_drop _ g), fun _ hr => nomatch hr⟩
  | @complete c g locks rm s₁ held walk free =>
    obtain ⟨hs₂, hc₂, hid, hcalm⟩ := live_walked hs hg held walk
    have htaken := calm_takenOut c (s₁.less rm.removed)
    have hend := htaken.trans (calm_drop (takenOut c (s₁.less rm.removed)) g)
    refine ⟨(ht.calm hcalm).calm hend, fun _ _ time hm => ?_⟩
    generalize hitem : Expiring.vertex id = item at hm
    cases hm with
    | arc => cases hitem
    | @vertex c' time live expires =>
      obtain ⟨hlive', hexpires'⟩ := (calm_drop _ g).dates c' time live expires
      obtain ⟨hlive, _⟩ := hend.dates c' time live expires
      have hsame : c' = c := hs₂.placed.eq_of_id hlive hc₂ (by
        rw [hid, Expiring.vertex.inj hitem, hend.cells.id c' hlive.1])
      subst hsame
      rw [expires_takenOut hc₂ hlive'] at hexpires'
      cases hexpires'

/-! ## Disconnecting -/

theorem DisconnectRun.sameDates {anchor : String} {probe : Probe} {neighbor : Option String}
    {r : Except Error Nat} (h : DisconnectRun who anchor probe neighbor G s r s') :
    s.SameDates s' := by
  cases h with
  | refused => exact .refl s
  | unfit => exact .refl s
  | missing => exact .refl s
  | @alone c g locks id held =>
    have hlocks : s.SameDates { s with locks } := sameDates_of_cells rfl rfl rfl
    exact hlocks.trans (sameDates_drop _ g)
  | @walked c g locks filter n rm s₁ held probed wanted walk =>
    have hlocks : s.SameDates { s with locks } := sameDates_of_cells rfl rfl rfl
    have hless : s₁.SameDates (s₁.less rm.removed) := sameDates_of_cells rfl rfl rfl
    exact ((hlocks.trans walk.dates).trans hless).trans (sameDates_drop _ g)

theorem DisconnectRun.calm {anchor : String} {probe : Probe} {neighbor : Option String}
    {r : Except Error Nat} (h : DisconnectRun who anchor probe neighbor G s r s') : s.Calm s' := by
  cases h with
  | refused => exact .refl s
  | unfit => exact .refl s
  | missing => exact .refl s
  | @alone c g locks id held =>
    have hlocks : s.Calm { s with locks } := calm_of_cells rfl rfl rfl
    exact hlocks.trans (calm_drop _ g)
  | @walked c g locks filter n rm s₁ held probed wanted walk =>
    have hlocks : s.Calm { s with locks } := calm_of_cells rfl rfl rfl
    exact (hlocks.trans walk.calm).trans (calm_drop _ g)

/-- An outcome after which an item is not tried again. -/
def Concluded {α : Type} (r : Except Error α) : Prop :=
  ∀ e, r = .error e → (e.isRetrySafe || e.partialCount.isSome) = false

theorem concluded_ok {α : Type} {x : α} : Concluded (.ok x : Except Error α) := by
  intro e he
  cases he

theorem Concluded.of_map {α β : Type} {r : Except Error α} {f : α → β}
    (h : Concluded (r.map f)) : Concluded r := by
  rintro e rfl
  exact h e rfl

theorem Concluded.map {α β : Type} {r : Except Error α} (h : Concluded r) (f : α → β) :
    Concluded (r.map f) := by
  intro e he
  cases r with
  | error e' => exact h e (Except.error.inj he ▸ rfl)
  | ok x => cases he

theorem not_concluded_of_refused {α : Type} {cause : AccessError} :
    ¬ Concluded (.error (.access cause) : Except Error α) := by
  intro h
  have hfinal := h _ rfl
  simp [Error.isRetrySafe] at hfinal

theorem not_concluded_of_incomplete {α : Type} {removed remaining : Nat} {cause : AccessError} :
    ¬ Concluded (.error (.arc (.incomplete removed remaining cause)) : Except Error α) := by
  intro h
  have hfinal := h _ rfl
  simp [Error.partialCount] at hfinal

theorem Concluded.cause_eq_none {rm : Removal} (h : Concluded rm.result) : rm.cause = none := by
  cases hcause : rm.cause with
  | none => rfl
  | some cause =>
    rw [Removal.result, hcause] at h
    exact absurd h not_concluded_of_incomplete

/-- No arc with a time is left of a relationship that has been disconnected. -/
theorem DisconnectRun.cleared {initial relationship terminal : String} {r : Except Error Nat}
    (h : DisconnectRun who initial (.along relationship .out) (some terminal) G s r s')
    (hs : s.Sound agree) (ht : s.Timely pending) (hend : Concluded r) (time : UInt32) :
    ¬ s'.Marks (.arc initial relationship terminal) time := by
  have hcalm := h.calm
  cases h with
  | refused => exact absurd hend not_concluded_of_refused
  | unfit fault =>
    have hempty := fault_of_along fault
    intro hm
    cases hm with
    | @arc i t code a relationship time initial terminal stored named value =>
      obtain ⟨label, _, hne, hlabel, _⟩ := ht.coded i t code a initial terminal stored
      exact hne (by rw [Option.some.inj (hlabel.symm.trans named), hempty])
  | missing absent => exact not_marks_arc hs.placed (.inl absent) time
  | @alone c g locks id held wanted absent =>
    intro hm
    obtain rfl := Option.some.inj wanted
    exact not_marks_arc hs.placed (.inr absent) time (hcalm.marks ht.coded hm)
  | @walked c g locks filter n rm s₁ held probed wanted walk =>
    obtain ⟨m, hm, rfl⟩ : ∃ m, s.lookup terminal = some m ∧ n = some m := by
      cases hfound : s.lookup terminal with
      | none => simp [hfound] at wanted
      | some m => exact ⟨m, rfl, by simpa [hfound] using wanted.symm⟩
    obtain ⟨hc, hid⟩ := held.live hs
    obtain ⟨hlive, hname⟩ := hs.placed.of_lookup hm
    intro hmark
    generalize hitem : Expiring.arc initial relationship terminal = item at hmark
    cases hmark with
    | vertex => cases hitem
    | @arc i t code a label time hi htl stored named value =>
      obtain ⟨hinitial, rfl, hterminal⟩ := Expiring.arc.inj hitem
      obtain ⟨hi₁, ht₁, stored₁⟩ := (calm_drop _ g).arcs i t code a hi htl stored
      obtain ⟨hi₀, ht₀, stored₀⟩ := hcalm.arcs i t code a hi htl stored
      have hic : i = c := hs.placed.eq_of_id hi₀ hc (by
        rw [hid, hinitial, hcalm.cells.id i hi₀.1])
      have htm : t = m := hs.placed.eq_of_id ht₀ hlive (by
        rw [hname, hterminal, hcalm.cells.id t ht₀.1])
      subst hic htm
      have hnamed : s.Names relationship code := by
        obtain ⟨label', _, _, hlabel, _⟩ := ht.coded i t code a hi₀ ht₀ stored₀
        have hsame := Option.some.inj ((hcalm.names code label' hlabel).symm.trans named)
        exact .inr ((ht.labels relationship code).2 (hsame ▸ hlabel))
      have hs₁ := hs.withLocks locks
      have hdirection : (Probe.along relationship .out).direction = .out := by
        rw [Probe.along, Probe.withRelationship]
      have hnone : s₁.arcAt? i t code .timeExpires = none :=
        walk.arcAt?_eq_none hend.cause_eq_none hs₁ hc hlive (by rw [hdirection]; rfl) BEq.rfl
          fun b hcode _ => test_of_names probed (hcode ▸ hnamed)
      rw [show s₁.arcAt? i t code .timeExpires = some a from stored₁] at hnone
      cases hnone

/-! ## Passes -/

/-- Whatever comes of an item, nothing that expires is lost; unless the item has to be tried
again, nothing is left of it. -/
theorem ItemRun.timely {item : Expiring} {outcome : Except Error (Nat × Nat)}
    (h : ItemRun who G s item outcome s') (hs : s.Sound agree) (hg : s.Guarded G)
    (ht : s.Timely pending) :
    s'.Timely pending ∧ (Concluded outcome → ∀ time, ¬ s'.Marks item time) := by
  cases h with
  | @vertex id r _ run =>
    obtain ⟨ht', hgone⟩ := run.timely hs hg ht
    refine ⟨ht', fun hend => ?_⟩
    have hend := hend.of_map
    cases r with
    | ok n => exact hgone n rfl
    | error e =>
      cases run with
      | refused => exact absurd hend not_concluded_of_refused
      | incomplete => exact absurd hend not_concluded_of_incomplete
  | arc run => exact ⟨ht.calm run.calm, fun hend => run.cleared hs ht hend.of_map⟩

/-- The items to be tried again are among those that have been tried. -/
theorem ExpireRun.sublist {due again : List (UInt32 × Expiring)}
    (h : ExpireRun who due s again s') : again.Sublist due := by
  induction h with
  | nil => exact .slnil
  | done _ _ ih => exact ih.cons _
  | retried _ _ _ ih => exact ih.cons_cons _
  | dropped _ _ _ ih => exact ih.cons _

theorem timeIn?_eq_none {l : List (UInt32 × Expiring)} {item : Expiring}
    (h : item ∉ l.map Prod.snd) : Schedule.timeIn? l item = none := by
  cases htime : Schedule.timeIn? l item with
  | none => rfl
  | some time =>
    exact absurd (List.mem_map_of_mem (f := Prod.snd) (Schedule.mem_of_timeIn? htime)) h

/-- Between two items, everything that expires is in the schedule, among the items to come, or
among those to be tried again. -/
theorem ExpireRun.timely {due again : List (UInt32 × Expiring)} (h : ExpireRun who due s again s')
    (hs : s.Sound agree) (hg : s.Guarded G) (hdistinct : (due.map Prod.snd).Nodup)
    (ht : s.Timely fun item => (Schedule.timeIn? due item).or (pending item)) :
    s'.Timely fun item => (Schedule.timeIn? again item).or (pending item) := by
  -- an item that need not be tried again is not pending any more
  have hsettled : ∀ {time : UInt32} {item : Expiring} {rest : List (UInt32 × Expiring)}
      {s s₁ : Store} {outcome : Except Error (Nat × Nat)} {pending : Expiring → Option UInt32},
      s.Sound agree → s.Guarded G → (expire who item).run s = (outcome, s₁) →
      Concluded outcome →
      s.Timely (fun x => (Schedule.timeIn? ((time, item) :: rest) x).or (pending x)) →
      s₁.Timely fun x => (Schedule.timeIn? rest x).or (pending x) := by
    intro time item rest s s₁ outcome pending hs hg first hend ht
    obtain ⟨ht₁, hgone⟩ := (run_expire hs hg first).timely hs hg ht
    refine ht₁.settle (hgone hend) fun other hne => ?_
    rw [Schedule.timeIn?_cons, if_neg (Ne.symm hne)]
  induction h generalizing pending with
  | nil => exact ht
  | done first others ih =>
    obtain ⟨hs₁, hg₁⟩ := sound_expire hs hg first
    exact ih hs₁ hg₁ (List.nodup_cons.1 hdistinct).2
      (hsettled hs hg first concluded_ok ht)
  | dropped first final others ih =>
    obtain ⟨hs₁, hg₁⟩ := sound_expire hs hg first
    refine ih hs₁ hg₁ (List.nodup_cons.1 hdistinct).2 (hsettled hs hg first ?_ ht)
    rintro e he
    exact Except.error.inj he ▸ final
  | @retried time item rest again s s₁ s₂ e first retry others ih =>
    obtain ⟨hs₁, hg₁⟩ := sound_expire hs hg first
    obtain ⟨hfresh, hrest⟩ := List.nodup_cons.1 hdistinct
    have ht₁ := ((run_expire hs hg first).timely hs hg ht).1
    -- the item itself is pending from now on
    have hpending : ∀ l : List (UInt32 × Expiring), item ∉ l.map Prod.snd →
        (fun x => (Schedule.timeIn? ((time, item) :: l) x).or (pending x)) =
          fun x => (Schedule.timeIn? l x).or (if item = x then some time else pending x) := by
      intro l hl
      funext x
      rw [Schedule.timeIn?_cons]
      by_cases hx : item = x
      · subst hx
        rw [if_pos rfl, if_pos rfl, timeIn?_eq_none hl]
        rfl
      · rw [if_neg hx, if_neg hx]
    rw [hpending rest hfresh] at ht₁
    have hagain : item ∉ again.map Prod.snd := fun hm => hfresh ((others.sublist.map _).subset hm)
    rw [hpending again hagain]
    exact ih hs₁ hg₁ hrest ht₁

/-- A pass takes its items from the schedule and puts back those that are to be tried again,
unless they have been given another time. -/
theorem timely_runExpiration {time : UInt32} {r : Except Error ExpirationReport}
    (hs : s.Sound agree) (hg : s.Guarded G) (ht : s.Timely fun _ => none)
    (hrun : (runExpiration who time).run s = (r, s')) : s'.Timely fun _ => none := by
  rcases run_runExpiration hrun with ⟨_, _, rfl⟩ | ⟨_, report, again, s₁, _, _, run, rfl⟩
  · exact ht
  · have hpopped : Timely (fun item => (Schedule.timeIn? (s.schedule.popDue time).1 item).or none)
        (popped time s) := by
      refine ⟨ht.labels, ht.coded, fun item t hm => ?_⟩
      have htime : s.schedule.time? item = some t :=
        (Option.or_none ..).symm.trans (ht.marked item t hm.of_schedule)
      rw [dueAt, popped, Schedule.time?_popDue, htime]
      by_cases hlate : time < t
      · simp [Option.filter, hlate]
      · have hdue := Schedule.timeIn?_of_mem (Schedule.nodup_popDue s.schedule time)
          (Schedule.mem_popDue_iff.2 ⟨htime, UInt32.not_lt.1 hlate⟩)
        simp [Option.filter, hlate, hdue]
    obtain ⟨hs₀, hg₀⟩ := sound_popped hs hg time
    have hafter := run.timely hs₀ hg₀ (Schedule.nodup_popDue s.schedule time) hpopped
    refine ⟨hafter.labels, hafter.coded, fun item t hm => ?_⟩
    have hdue := hafter.marked item t hm.of_schedule
    rw [dueAt, Option.or_none] at hdue
    rw [dueAt, Option.or_none, Schedule.time?_requeueAll]
    exact hdue

end Action

end Arcbase
