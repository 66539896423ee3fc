import Arcbase.Proofs.Labels
import Arcbase.Proofs.Schedule
import Arcbase.Proofs.Store.Sweeping
set_option autoImplicit false

/-!
# Stores that lose no expiration

What is stored tells when it expires: a vertex by its attribute, and the relationship
between two vertices by an arc that carries the time (`Marks`).  A store is *timely* if
every such item is in its schedule with that very time, or among the items that are being
tried (`Timely`).

A change is *calm* if nothing comes by it that expires; then a timely store stays timely
(`Timely.calm`).  Apart from calm changes there are two that give an item a time, and both
schedule it (`Timely.mark`, `Timely.date`).
-/

namespace Arcbase.Store

variable {agree : Agreement} {s s' s'' : Store} {pending : Expiring → Option UInt32}

/-! ## What expires -/

/-- What is stored tells that an item expires at a time. -/
inductive Marks (s : Store) : Expiring → UInt32 → Prop where
  | vertex {c : CellId} {time : UInt32} (live : s.Live c)
      (expires : (s.data c).expires = some time) : Marks s (.vertex (s.cell c).id) time
  | arc {i t : CellId} {code : LabelCode} {a : StoredArc} {relationship : String} {time : UInt32}
      (initial : s.Live i) (terminal : s.Live t)
      (stored : s.arcAt? i t code .timeExpires = some a)
      (named : s.labels.relationships.decode? code = some relationship)
      (value : a.value = .unsigned time) :
      Marks s (.arc (s.cell i).id relationship (s.cell t).id) time

/-- The schedule has no part in what is stored. -/
theorem Marks.of_schedule {schedule : Schedule} {item : Expiring} {time : UInt32}
    (h : Marks { s with schedule } item time) : s.Marks item time := by
  cases h with
  | vertex live expires => exact .vertex (s := s) live expires
  | arc initial terminal stored named value =>
    exact .arc (s := s) initial terminal stored named value

/-- When an item is due: by the schedule, or else as one of those that are being tried. -/
def dueAt (s : Store) (pending : Expiring → Option UInt32) (item : Expiring) : Option UInt32 :=
  (s.schedule.time? item).or (pending item)

/-- Arcs that carry times have labels, and their times are numbers. -/
def Coded (s : Store) : Prop :=
  ∀ i t code a, s.Live i → s.Live t → s.arcAt? i t code .timeExpires = some a →
    ∃ relationship time, relationship ≠ "" ∧
      s.labels.relationships.decode? code = some relationship ∧ a.value = .unsigned time

/-- Whatever expires is due when it expires. -/
structure Timely (pending : Expiring → Option UInt32) (s : Store) : Prop where
  labels : s.labels.relationships.Valid
  coded : s.Coded
  marked : ∀ item time, s.Marks item time → s.dueAt pending item = some time

theorem timely_new (config : Config) {labels : Labels} (h : labels.relationships.Valid) :
    (new config labels).Timely pending := by
  have hnone : ∀ c, ¬ (new config labels).Live c := fun c h => Nat.not_lt_zero c h.1
  refine ⟨h, fun i t code a hi => absurd hi (hnone i), fun item time hm => ?_⟩
  cases hm with
  | vertex live => exact absurd live (hnone _)
  | arc initial => exact absurd initial (hnone _)

/-- An item of which nothing is stored need not be due. -/
theorem Timely.settle {pending' : Expiring → Option UInt32} {item : Expiring}
    (h : s.Timely pending) (hnone : ∀ time, ¬ s.Marks item time)
    (hothers : ∀ other, other ≠ item → pending' other = pending other) : s.Timely pending' := by
  refine ⟨h.labels, h.coded, fun other time hm => ?_⟩
  have hne : other ≠ item := fun e => hnone time (e ▸ hm)
  rw [dueAt, hothers other hne]
  exact h.marked other time hm

/-! ## Calm changes -/

/-- Nothing has come that expires, and what is left expires when it did. -/
structure Calm (s s' : Store) : Prop where
  cells : s.Extends s'
  schedule : s'.schedule = s.schedule
  valid : s.labels.relationships.Valid → s'.labels.relationships.Valid
  names : s.labels.relationships.Keeps s'.labels.relationships
  dates : ∀ c time, s'.Live c → (s'.data c).expires = some time →
    s.Live c ∧ (s.data c).expires = some time
  arcs : ∀ i t code a, s'.Live i → s'.Live t → s'.arcAt? i t code .timeExpires = some a →
    s.Live i ∧ s.Live t ∧ s.arcAt? i t code .timeExpires = some a

theorem Calm.trans (h : s.Calm s') (h' : s'.Calm s'') : s.Calm s'' := by
  refine ⟨h.cells.trans h'.cells, h'.schedule.trans h.schedule, fun hv => h'.valid (h.valid hv),
    h.names.trans h'.names, fun c time hc he => ?_, fun i t code a hi ht ha => ?_⟩
  · obtain ⟨hc', he'⟩ := h'.dates c time hc he
    exact h.dates c time hc' he'
  · obtain ⟨hi', ht', ha'⟩ := h'.arcs i t code a hi ht ha
    exact h.arcs i t code a hi' ht' ha'

/-- A change of anything but cells, labels and schedule. -/
theorem calm_of_cells (hc : s'.cells = s.cells) (hl : s'.labels = s.labels)
    (hq : s'.schedule = s.schedule) : s.Calm s' := by
  have hcell : ∀ c, s'.cell c = s.cell c := fun c => by rw [cell, hc, cell]
  have hdata : ∀ c, s'.data c = s.data c := fun c => by rw [data, hcell, data]
  have hlive : ∀ c, s'.Live c ↔ s.Live c := fun c => by rw [Live, Live, hc, hdata]
  refine ⟨⟨by rw [hc], fun c _ => by rw [hcell], fun c _ => by rw [hcell]⟩, hq, fun h => hl ▸ h,
    hl ▸ .refl _, fun c time h he => ⟨(hlive c).1 h, hdata c ▸ he⟩, fun i t code a hi ht ha => ?_⟩
  rw [arcAt?, hdata, hcell] at ha
  exact ⟨(hlive i).1 hi, (hlive t).1 ht, ha⟩

theorem Calm.refl (s : Store) : s.Calm s := calm_of_cells rfl rfl rfl

/-- A change of labels that takes no code away. -/
theorem calm_labels {labels : Labels}
    (hvalid : s.labels.relationships.Valid → labels.relationships.Valid)
    (hkeeps : s.labels.relationships.Keeps labels.relationships) : s.Calm { s with labels } :=
  ⟨SameFrame.extends (sameFrame_of_cells rfl rfl), rfl, hvalid, hkeeps,
    fun _ _ hc he => ⟨hc, he⟩, fun _ _ _ _ hi ht ha => ⟨hi, ht, ha⟩⟩

theorem calm_modifyData {c : CellId} {f : VertexData → VertexData} (hf : KeepsArcs f)
    (hdate : ∀ d time, (f d).expires = some time → d.expires = some time) :
    s.Calm (s.modifyData c f) := by
  have hframe := hf.sameFrame s c
  refine ⟨hframe.extends, rfl, id, .refl _, fun c' time hc' he => ?_, fun i t code a hi ht ha => ?_⟩
  · refine ⟨hframe.live_iff.1 hc', ?_⟩
    rw [data_modifyData_ite] at he
    split at he
    · exact hdate _ time he
    · exact he
  · refine ⟨hframe.live_iff.1 hi, hframe.live_iff.1 ht, ?_⟩
    have hout : ((s.modifyData c f).data i).out = (s.data i).out := by
      rw [data_modifyData_ite]
      split
      · exact (hf _).1
      · rfl
    rw [arcAt?, hout, hframe.key] at ha
    exact ha

/-- A new vertex has no arcs, and does not expire. -/
theorem calm_addCell (hs : s.Sound agree) {new : Cell} (hfresh : s.lookupKey new.key = none)
    (hkept : new.data.deleted = false) (hbare : Bare new.data) (hdate : new.data.expires = none) :
    s.Calm (s.addCell new) := by
  obtain ⟨hnew, hkey⟩ := data_addCell_new s new
  refine ⟨extends_addCell s new, rfl, id, .refl _, fun c time hc he => ?_,
    fun i t code a hi ht ha => ?_⟩
  · rcases (live_addCell_iff hkept).1 hc with rfl | hc
    · rw [hnew, hdate] at he
      cases he
    · rw [(data_addCell_of_live hc).1] at he
      exact ⟨hc, he⟩
  · rcases (live_addCell_iff hkept).1 hi with rfl | hi
    · rw [arcAt?, hnew, hbare.out] at ha
      cases ha
    · have hout : (s.addCell new).data i = s.data i := (data_addCell_of_live hi).1
      rcases (live_addCell_iff hkept).1 ht with rfl | ht
      · have hnone := (hs.paired.arcsTo_of_unknown hs.placed hfresh hi).1
        rw [arcAt?, hout, show ((s.addCell new).cell s.cells.size).key = new.key from hkey,
          get?_of_arcsTo_eq_nil hnone] at ha
        cases ha
      · have hkey' : ((s.addCell new).cell t).key = (s.cell t).key := (data_addCell_of_live ht).2
        rw [arcAt?, hout, hkey'] at ha
        exact ⟨hi, ht, ha⟩

theorem Swept.calm (h : Swept (fun _ => False) (fun _ => True) s s')
    (hq : s'.schedule = s.schedule) : s.Calm s' := by
  refine ⟨h.cells, hq, fun hv => h.labels ▸ hv, h.labels ▸ .refl _, fun c time hc he => ?_,
    fun i t code a hi ht ha => ?_⟩
  · obtain hfalse | ⟨_, hsame⟩ := h.kept c hc
    · exact hfalse.elim
    · exact ⟨h.live c hc, hsame ▸ he⟩
  · have ht₀ := h.live t ht
    refine ⟨h.live i hi, ht₀, ?_⟩
    rw [arcAt?, show (s'.cell t).key = (s.cell t).key from h.cells.key t ht₀.1] at ha
    rcases h.places ⟨i, (s.cell t).key, code, .timeExpires⟩ with hsame | ⟨hnone, _⟩
    · exact hsame.symm.trans ha
    · rw [show s'.arcIn? ⟨i, (s.cell t).key, code, .timeExpires⟩ = some a from ha] at hnone
      cases hnone

theorem calm_remove (s : Store) (c : CellId) : s.Calm (s.remove c) := by
  have hdates := sameDates_remove s c
  have hcell : ∀ c', ((s.remove c).cell c').key = (s.cell c').key ∧
      ((s.remove c).cell c').id = (s.cell c').id ∧
        ((s.remove c).data c').out = (s.data c').out := by
    intro c'
    rw [data, cell_remove, cell_modifyData]
    split <;> exact ⟨rfl, rfl, rfl⟩
  refine ⟨⟨hdates.count.ge, fun c' _ => (hcell c').2.1, fun c' _ => (hcell c').1⟩, hdates.schedule,
    fun hv => hdates.labels ▸ hv, hdates.labels ▸ .refl _, fun c' time hc he => ?_,
    fun i t code a hi ht ha => ?_⟩
  · exact ⟨(live_remove_iff.1 hc).1, (hdates.expires c').symm.trans he⟩
  · rw [arcAt?, (hcell i).2.2, (hcell t).1] at ha
    exact ⟨(live_remove_iff.1 hi).1, (live_remove_iff.1 ht).1, ha⟩

theorem calm_collectOrphan (s : Store) (c : CellId) : s.Calm (s.collectOrphan c) := by
  rw [collectOrphan]
  split
  · exact calm_remove s c
  · exact .refl s

theorem calm_drop (s : Store) (g : Guard) : s.Calm (s.drop g) := by
  have hcollected : s.Calm
      (if g.isWritable && s.locks.isOutermost g then s.collectOrphan g.item.slot else s) := by
    split
    · exact calm_collectOrphan s _
    · exact .refl s
  exact hcollected.trans (calm_of_cells rfl rfl rfl)

/-- What is stored of an item after a calm change was stored before. -/
theorem Calm.marks (h : s.Calm s') (hcoded : s.Coded) {item : Expiring} {time : UInt32}
    (hm : s'.Marks item time) : s.Marks item time := by
  cases hm with
  | @vertex c time live expires =>
    obtain ⟨hlive, hexpires⟩ := h.dates c time live expires
    rw [h.cells.id c hlive.1]
    exact .vertex hlive hexpires
  | @arc i t code a relationship time initial terminal stored named value =>
    obtain ⟨hi, ht, ha⟩ := h.arcs i t code a initial terminal stored
    obtain ⟨relationship', _, _, hnamed, _⟩ := hcoded i t code a hi ht ha
    have hlabel : relationship' = relationship :=
      Option.some.inj ((h.names code relationship' hnamed).symm.trans named)
    rw [h.cells.id i hi.1, h.cells.id t ht.1]
    exact .arc hi ht ha (hlabel ▸ hnamed) value

theorem Coded.calm (hcoded : s.Coded) (h : s.Calm s') : s'.Coded := by
  intro i t code a hi ht ha
  obtain ⟨hi₀, ht₀, ha₀⟩ := h.arcs i t code a hi ht ha
  obtain ⟨relationship, time, hne, hnamed, hvalue⟩ := hcoded i t code a hi₀ ht₀ ha₀
  exact ⟨relationship, time, hne, h.names code relationship hnamed, hvalue⟩

theorem Timely.calm (h : s.Timely pending) (hc : s.Calm s') : s'.Timely pending := by
  refine ⟨hc.valid h.labels, h.coded.calm hc, fun item time hm => ?_⟩
  rw [dueAt, hc.schedule]
  exact h.marked item time (hc.marks h.coded hm)

/-! ## Giving an item its time -/

/-- An item is scheduled for the time that is stored of it; nothing else has come. -/
theorem Timely.scheduleAt {item : Expiring} {time : UInt32} (h : s.Timely pending)
    (hq : s'.schedule = s.schedule) (hl : s'.labels = s.labels) (hcoded : s'.Coded)
    (hitem : ∀ time', s'.Marks item time' → time' = time)
    (hothers : ∀ other time', other ≠ item → s'.Marks other time' → s.Marks other time') :
    (s'.scheduleAt item time).Timely pending := by
  refine ⟨hl ▸ h.labels, hcoded, fun other time' hm => ?_⟩
  have hm' : s'.Marks other time' := hm.of_schedule
  have hdue := Schedule.time?_set s'.schedule item other time
  rw [dueAt, show (s'.scheduleAt item time).schedule = s'.schedule.set item time from rfl, hdue]
  by_cases ho : item = other
  · subst ho
    rw [if_pos rfl, hitem time' hm']
    rfl
  · rw [if_neg ho, hq]
    exact h.marked other time' (hothers other time' (Ne.symm ho) hm')

/-- A vertex is given a time at which it expires. -/
def expireAt (s : Store) (c : CellId) (time : UInt32) : Store :=
  s.modifyData c fun d => { d with expires := some time }

theorem data_expireAt {c : CellId} (hc : s.Live c) (time : UInt32) (c' : CellId) :
    (s.expireAt c time).data c' =
      if c = c' then { s.data c' with expires := some time } else s.data c' := by
  rw [expireAt, data_modifyData_ite]
  by_cases he : c = c'
  · rw [if_pos ⟨he, hc.1⟩, if_pos he]
  · rw [if_neg fun e => he e.1, if_neg he]

theorem sameFrame_expireAt (s : Store) (c : CellId) (time : UInt32) :
    s.SameFrame (s.expireAt c time) := sameFrame_modifyData s c fun _ => rfl

theorem Timely.mark (h : s.Timely pending) (hp : s.Placed) {c : CellId} (hc : s.Live c)
    (time : UInt32) :
    ((s.expireAt c time).scheduleAt (.vertex (s.cell c).id) time).Timely pending := by
  have hframe := sameFrame_expireAt s c time
  have hout : ∀ c', ((s.expireAt c time).data c').out = (s.data c').out := by
    intro c'
    rw [data_expireAt hc]
    split <;> rfl
  have harc : ∀ i t code, (s.expireAt c time).arcAt? i t code .timeExpires =
      s.arcAt? i t code .timeExpires := by
    intro i t code
    rw [arcAt?, hout, hframe.key, arcAt?]
  refine h.scheduleAt rfl rfl ?_ ?_ ?_
  · intro i t code a hi ht ha
    rw [harc] at ha
    exact h.coded i t code a (hframe.live_iff.1 hi) (hframe.live_iff.1 ht) ha
  · intro time' hm
    generalize hitem : Expiring.vertex (s.cell c).id = item at hm
    cases hm with
    | @vertex c' time' live expires =>
      rw [hframe.id] at hitem
      obtain rfl := hp.eq_of_id hc (hframe.live_iff.1 live) (Expiring.vertex.inj hitem)
      rw [data_expireAt hc, if_pos rfl] at expires
      exact (Option.some.inj expires).symm
    | arc => cases hitem
  · intro other time' hne hm
    cases hm with
    | @vertex c' time' live expires =>
      rw [hframe.id] at hne ⊢
      have hother : ¬ c = c' := fun e => hne (by rw [e])
      rw [data_expireAt hc, if_neg hother] at expires
      exact .vertex (hframe.live_iff.1 live) expires
    | @arc i t code a relationship time' initial terminal stored named value =>
      rw [harc] at stored
      rw [hframe.id, hframe.id]
      exact .arc (hframe.live_iff.1 initial) (hframe.live_iff.1 terminal) stored named value

/-! ## Writing arcs -/

/-- The slots of arcs that carry times are as before, but for some. -/
structure SameTimes (E : CellId → CellId → LabelCode → Prop) (s s' : Store) : Prop where
  frame : s.SameFrame s'
  dates : s.SameDates s'
  arcs : ∀ i t code, s.Live i → s.Live t → ¬ E i t code →
    s'.arcAt? i t code .timeExpires = s.arcAt? i t code .timeExpires

variable {E : CellId → CellId → LabelCode → Prop}

theorem SameTimes.trans (h : SameTimes E s s') (h' : SameTimes E s' s'') : SameTimes E s s'' :=
  ⟨h.frame.trans h'.frame, h.dates.trans h'.dates, fun i t code hi ht hE =>
    (h'.arcs i t code (h.frame.live_iff.2 hi) (h.frame.live_iff.2 ht) hE).trans
      (h.arcs i t code hi ht hE)⟩

theorem sameTimes_modifyData (s : Store) (c : CellId) {f : VertexData → VertexData}
    (hf : KeepsArcs f) (hdate : ∀ d, (f d).expires = d.expires) :
    SameTimes E s (s.modifyData c f) := by
  have hframe := hf.sameFrame s c
  refine ⟨hframe, sameDates_modifyData s c hdate, fun i t code _ _ _ => ?_⟩
  rw [arcAt?, data_modifyData_ite, hframe.key, arcAt?]
  split
  · rw [(hf _).1]
  · rfl

theorem sameTimes_putArc (hp : s.Placed) {i t : CellId} (hi : s.Live i) (ht : s.Live t)
    {code : LabelCode} {kind : ArcKind} (hE : kind = .timeExpires → E i t code)
    (forwardOnly : Bool) (u : ArcUpdate) (now : UInt32) :
    SameTimes E s (s.putArc i t code kind forwardOnly u now).2 := by
  have w := wrote_putArc hi ht code kind forwardOnly u now
  have hrest : (s.putArc i t code kind forwardOnly u now).2.labels = s.labels ∧
      (s.putArc i t code kind forwardOnly u now).2.schedule = s.schedule := by
    rw [putArc_snd, countNew, putInward]
    split
    · exact ⟨rfl, rfl⟩
    · split <;> exact ⟨rfl, rfl⟩
  refine ⟨w.frame, ⟨hrest.1, hrest.2, w.frame.count, fun c => by rw [w.data, dataWith]⟩,
    fun i' t' code' _ ht' hnot => ?_⟩
  rw [w.initialSide.arcAt? hp ht ht', if_neg]
  rintro ⟨rfl, rfl, hslot⟩
  obtain ⟨rfl, hkind⟩ := Slots.inSlot_iff.1 hslot
  exact hnot (hE hkind)

theorem SameTimes.calm (h : SameTimes (fun _ _ _ => False) s s') : s.Calm s' :=
  ⟨h.frame.extends, h.dates.schedule, fun hv => h.dates.labels ▸ hv, h.dates.labels ▸ .refl _,
    fun c _ hc he => ⟨h.frame.live_iff.1 hc, (h.dates.expires c).symm.trans he⟩,
    fun i t code _ hi ht ha =>
      have hi₀ := h.frame.live_iff.1 hi
      have ht₀ := h.frame.live_iff.1 ht
      ⟨hi₀, ht₀, (h.arcs i t code hi₀ ht₀ id).symm.trans ha⟩⟩

/-- An arc is given the time at which its relationship expires. -/
theorem Timely.date {i t : CellId} {code : LabelCode} {relationship : String} {time : UInt32}
    {a : StoredArc} (h : s.Timely pending) (hp : s.Placed) (hi : s.Live i) (ht : s.Live t)
    (hnamed : s.labels.relationships.decode? code = some relationship) (hne : relationship ≠ "")
    (hsame : SameTimes (fun i' t' code' => i' = i ∧ t' = t ∧ code' = code) s s')
    (hwritten : s'.arcAt? i t code .timeExpires = some a) (hvalue : a.value = .unsigned time) :
    (s'.scheduleAt (.arc (s.cell i).id relationship (s.cell t).id) time).Timely pending := by
  have hframe := hsame.frame
  have hlabels := hsame.dates.labels
  refine h.scheduleAt hsame.dates.schedule hlabels ?_ ?_ ?_
  · intro i' t' code' a' hi' ht' ha'
    rw [hlabels]
    by_cases hslot : i' = i ∧ t' = t ∧ code' = code
    · obtain ⟨rfl, rfl, rfl⟩ := hslot
      rw [hwritten] at ha'
      exact ⟨relationship, time, hne, hnamed, Option.some.inj ha' ▸ hvalue⟩
    · have hi₀ := hframe.live_iff.1 hi'
      have ht₀ := hframe.live_iff.1 ht'
      rw [hsame.arcs i' t' code' hi₀ ht₀ hslot] at ha'
      exact h.coded i' t' code' a' hi₀ ht₀ ha'
  · intro time' hm
    generalize hitem : Expiring.arc (s.cell i).id relationship (s.cell t).id = item at hm
    cases hm with
    | vertex => cases hitem
    | @arc i' t' code' a' relationship' time' initial terminal stored named value =>
      rw [hframe.id, hframe.id] at hitem
      obtain ⟨hid, rfl, hid'⟩ := Expiring.arc.inj hitem
      obtain rfl := hp.eq_of_id hi (hframe.live_iff.1 initial) hid
      obtain rfl := hp.eq_of_id ht (hframe.live_iff.1 terminal) hid'
      rw [hlabels] at named
      have hcode : code = code' := Option.some.inj
        (((h.labels relationship code).2 hnamed).symm.trans ((h.labels relationship code').2 named))
      rw [← hcode, hwritten] at stored
      obtain rfl := Option.some.inj stored
      exact (ArcValue.unsigned.inj (hvalue.symm.trans value)).symm
  · intro other time' hother hm
    cases hm with
    | @vertex c time' live expires =>
      rw [hsame.dates.expires] at expires
      rw [hframe.id]
      exact .vertex (hframe.live_iff.1 live) expires
    | @arc i' t' code' a' relationship' time' initial terminal stored named value =>
      have hi₀ := hframe.live_iff.1 initial
      have ht₀ := hframe.live_iff.1 terminal
      rw [hlabels] at named
      rw [hframe.id, hframe.id] at hother ⊢
      have hslot : ¬ (i' = i ∧ t' = t ∧ code' = code) := by
        rintro ⟨rfl, rfl, rfl⟩
        exact hother (by rw [Option.some.inj (named.symm.trans hnamed)])
      rw [hsame.arcs i' t' code' hi₀ ht₀ hslot] at stored
      exact .arc hi₀ ht₀ stored named value

end Arcbase.Store
