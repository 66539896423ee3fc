import Arcbase.Proofs.Store.Alike
import Arcbase.Proofs.Store.Linking
set_option autoImplicit false

/-!
# What a connect makes of its ends

Besides its arcs a connect writes the time of the change to both ends, and no other attribute
(`vertexSnapshot_connectAll`).  If it writes when a relationship ends, that end is scheduled
at the time which is then in its slot (`time?_connectAll`).  Cells that are no ends stay as
they are (`cell_connectAll`).
-/

namespace Arcbase

/-- A vertex that has been changed. -/
def VertexSnapshot.touch (v : VertexSnapshot) (now : UInt32) : VertexSnapshot :=
  { v with modified := now }

/-- A vertex that has become real. -/
def VertexSnapshot.promote (v : VertexSnapshot) (now : UInt32) : VertexSnapshot :=
  if v.manifestation = .virtual then { v with manifestation := .real, modified := now } else v

/-- The attributes of a vertex under its identifier, as a snapshot lists them. -/
def VertexData.listed (d : VertexData) (id : String) (types : LabelTable) : VertexSnapshot :=
  { id
    type := d.type.bind types.decode?
    manifestation := d.manifestation
    created := d.created
    modified := d.modified
    expires := d.expires
    properties := d.properties
    vector := d.vector }

theorem VertexData.listed_promote (d : VertexData) (now : UInt32) (id : String)
    (types : LabelTable) : (d.promote now).listed id types = (d.listed id types).promote now := by
  by_cases h : d.manifestation = .virtual <;>
    simp [promote, VertexSnapshot.promote, listed, h]

namespace ConnectRequest

instance (r : ConnectRequest) (kind : ArcKind) : Decidable (r.Writes kind) :=
  inferInstanceAs (Decidable (_ ∨ _))

/-- The relationship toward a terminal, as an item of the schedule. -/
def span (r : ConnectRequest) (t : String) : Expiring := .arc r.initial r.arc.relationship t

end ConnectRequest

namespace Store

variable {agree : Agreement} {s s' : Store} {now : UInt32} {r : ConnectRequest} {code : LabelCode}
  {u : ArcUpdate} {i t c : CellId} {passing : List CellId} {acc : Nat × Option ArcValue}

theorem connectAll_cons (now : UInt32) (r : ConnectRequest) (code : LabelCode) (u : ArcUpdate)
    (i t : CellId) (rest : List CellId) (acc : Nat × Option ArcValue) (s : Store) :
    ∃ acc', connectAll now r code u i (t :: rest) acc s =
      connectAll now r code u i rest acc' (s.connectTo now r code u i t).2 := ⟨_, rfl⟩

/-! ## Attributes -/

theorem vertexSnapshot_eq (s : Store) (c : CellId) :
    s.vertexSnapshot c = (s.data c).listed (s.cell c).id s.labels.types := rfl

theorem vertexSnapshot_of_cell (hcell : s'.cell c = s.cell c)
    (hlabels : s'.labels.types = s.labels.types) : s'.vertexSnapshot c = s.vertexSnapshot c := by
  rw [vertexSnapshot_eq, vertexSnapshot_eq, data, hcell, hlabels, data]

theorem vertexSnapshot_modifyData (s : Store) (c' : CellId) (f : VertexData → VertexData)
    (c : CellId) : (s.modifyData c' f).vertexSnapshot c =
      if c' = c ∧ c' < s.cells.size then (f (s.data c)).listed (s.cell c).id s.labels.types
      else s.vertexSnapshot c := by
  have hid : ((s.modifyData c' f).cell c).id = (s.cell c).id := by
    rw [cell_modifyData]
    split <;> rfl
  rw [vertexSnapshot_eq, data_modifyData_ite, hid]
  split <;> rfl

theorem vertexSnapshot_putArc (hi : i < s.cells.size) (ht : t < s.cells.size) (kind : ArcKind)
    (forwardOnly : Bool) (u : ArcUpdate) (c : CellId) :
    (s.putArc i t code kind forwardOnly u now).2.vertexSnapshot c = s.vertexSnapshot c := by
  rw [vertexSnapshot_eq, data_putArc code kind forwardOnly u now hi ht,
    (sameFrame_putArc code kind forwardOnly u now).id, labels_putArc]
  rfl

theorem sameFrame_putLink (s : Store) (now : UInt32) (r : ConnectRequest) (code : LabelCode)
    (u : ArcUpdate) (i t : CellId) : s.SameFrame (s.putLink now r code u i t) := by
  unfold putLink
  cases r.lifespan with
  | none => exact sameFrame_putArc ..
  | some lifespan => exact (sameFrame_putArc ..).trans (sameFrame_putArc ..)

theorem vertexSnapshot_putLink (hi : i < s.cells.size) (ht : t < s.cells.size) (c : CellId) :
    (s.putLink now r code u i t).vertexSnapshot c = s.vertexSnapshot c := by
  have hown : (s.putArc i t code r.arc.kind r.arc.forwardOnly u now).2.vertexSnapshot c =
      s.vertexSnapshot c := vertexSnapshot_putArc hi ht ..
  unfold putLink
  cases r.lifespan with
  | none => exact hown
  | some lifespan =>
    have hcount := (sameFrame_putArc (s := s) (i := i) (t := t) code r.arc.kind r.arc.forwardOnly
      u now).count
    exact (vertexSnapshot_putArc (hcount ▸ hi) (hcount ▸ ht) ..).trans hown

theorem vertexSnapshot_touch {c' : CellId} (hc' : c' < s.cells.size) (now : UInt32) (c : CellId) :
    (s.modifyData c' (·.touch now)).vertexSnapshot c =
      if c' = c then (s.vertexSnapshot c).touch now else s.vertexSnapshot c := by
  rw [vertexSnapshot_modifyData]
  by_cases he : c' = c
  · rw [if_pos ⟨he, hc'⟩, if_pos he]
    rfl
  · rw [if_neg fun h => he h.1, if_neg he]

/-- Two vertices, or twice the same, are changed. -/
theorem vertexSnapshot_touch_touch (hi : i < s.cells.size) (ht : t < s.cells.size) (now : UInt32)
    (c : CellId) : ((s.modifyData i (·.touch now)).modifyData t (·.touch now)).vertexSnapshot c =
      if c = i ∨ c = t then (s.vertexSnapshot c).touch now else s.vertexSnapshot c := by
  rw [vertexSnapshot_touch (by rwa [size_cells_modifyData]), vertexSnapshot_touch hi]
  by_cases hci : i = c <;> by_cases hct : t = c <;>
    simp [hci, hct, eq_comm, VertexSnapshot.touch]

/-- Both ends have been changed. -/
theorem vertexSnapshot_connectTo (hi : i < s.cells.size) (ht : t < s.cells.size) (c : CellId) :
    (s.connectTo now r code u i t).2.vertexSnapshot c =
      if c = i ∨ c = t then (s.vertexSnapshot c).touch now else s.vertexSnapshot c := by
  obtain ⟨schedule, hrun⟩ := connectTo_snd s now r code u i t
  have hcount := (sameFrame_putLink s now r code u i t).count
  have htouched := vertexSnapshot_touch_touch (i := i) (t := t) (hcount.symm ▸ hi)
    (hcount.symm ▸ ht) now c
  rw [vertexSnapshot_putLink hi ht] at htouched
  rw [hrun]
  exact htouched

theorem sameFrame_connectTo (s : Store) (now : UInt32) (r : ConnectRequest) (code : LabelCode)
    (u : ArcUpdate) (i t : CellId) : s.SameFrame (s.connectTo now r code u i t).2 := by
  obtain ⟨schedule, hrun⟩ := connectTo_snd s now r code u i t
  have htouch : ∀ (s' : Store) (c' : CellId), s'.SameFrame (s'.modifyData c' (·.touch now)) :=
    fun s' c' => (Action.keepsArcs_touch now).sameFrame s' c'
  rw [hrun]
  exact (((sameFrame_putLink s now r code u i t).trans (htouch _ i)).trans (htouch _ t)).trans
    (sameFrame_of_cells rfl rfl)

/-- The initial has been changed if anything has been written, and so have the terminals. -/
theorem vertexSnapshot_connectAll (hi : i < s.cells.size)
    (hpassing : ∀ t ∈ passing, t < s.cells.size) (now : UInt32) (r : ConnectRequest)
    (code : LabelCode) (u : ArcUpdate) (acc : Nat × Option ArcValue) (c : CellId) :
    (connectAll now r code u i passing acc s).2.vertexSnapshot c =
      if c ∈ passing ∨ c = i ∧ passing ≠ [] then (s.vertexSnapshot c).touch now
      else s.vertexSnapshot c := by
  induction passing generalizing s acc with
  | nil => simp [connectAll]
  | cons t rest ih =>
    obtain ⟨acc', hstep⟩ := connectAll_cons now r code u i t rest acc s
    have hcount := (sameFrame_connectTo s now r code u i t).count
    rw [hstep, ih (hcount ▸ hi) fun t' ht' => hcount ▸ hpassing t' (List.mem_cons_of_mem t ht')]
    rw [vertexSnapshot_connectTo hi (hpassing t List.mem_cons_self)]
    by_cases hci : c = i <;> by_cases hct : c = t <;> by_cases hm : c ∈ rest <;>
      by_cases hrest : rest = [] <;> simp_all [VertexSnapshot.touch]

/-! ## Cells -/

theorem writing_connectAll {W : CellId → Prop} (hWi : W i) (hWt : ∀ t ∈ passing, W t)
    (hi : s.Live i) (hpassing : ∀ t ∈ passing, s.Live t) :
    Writing W s (connectAll now r code u i passing acc s).2 := by
  induction passing generalizing s acc with
  | nil => exact .refl s
  | cons t rest ih =>
    have hto : Writing W s (s.connectTo now r code u i t).2 :=
      writing_connectTo hWi (hWt t List.mem_cons_self) hi (hpassing t List.mem_cons_self) now r
        code u
    obtain ⟨acc', hstep⟩ := connectAll_cons now r code u i t rest acc s
    rw [hstep]
    exact hto.trans (ih (fun t' ht' => hWt t' (List.mem_cons_of_mem t ht'))
      (hto.frame.live_iff.2 hi)
      fun t' ht' => hto.frame.live_iff.2 (hpassing t' (List.mem_cons_of_mem t ht')))

/-- What is no end of a connect is not written. -/
theorem cell_connectAll (hi : s.Live i) (hpassing : ∀ t ∈ passing, s.Live t)
    (hc : c < s.cells.size) (hci : c ≠ i) (hct : c ∉ passing) (now : UInt32) (r : ConnectRequest)
    (code : LabelCode) (u : ArcUpdate) (acc : Nat × Option ArcValue) :
    (connectAll now r code u i passing acc s).2.cell c = s.cell c := by
  have hwriting : Writing (fun c => c = i ∨ c ∈ passing) s
      (connectAll now r code u i passing acc s).2 :=
    writing_connectAll (.inl rfl) (fun _ => .inr) hi hpassing
  have hdata : (connectAll now r code u i passing acc s).2.data c = s.data c :=
    Steps.data_eq hwriting.steps (fun h => h.elim hci hct) hc
  have hid := hwriting.frame.id c
  have hkey := hwriting.frame.key c
  rw [data, data] at hdata
  generalize (connectAll now r code u i passing acc s).2.cell c = x at hdata hid hkey ⊢
  cases x
  exact Cell.mk.injEq .. ▸ ⟨hid, hkey, hdata⟩

theorem rest_putArc (s : Store) (i t : CellId) (code : LabelCode) (kind : ArcKind)
    (forwardOnly : Bool) (u : ArcUpdate) (now : UInt32) :
    (s.putArc i t code kind forwardOnly u now).2.config = s.config ∧
      (s.putArc i t code kind forwardOnly u now).2.schedule = s.schedule := by
  rw [putArc_snd, countNew, putInward]
  split
  · exact ⟨rfl, rfl⟩
  · split <;> exact ⟨rfl, rfl⟩

theorem rest_putLink (s : Store) (now : UInt32) (r : ConnectRequest) (code : LabelCode)
    (u : ArcUpdate) (i t : CellId) : (s.putLink now r code u i t).config = s.config ∧
      (s.putLink now r code u i t).schedule = s.schedule := by
  have hown := rest_putArc s i t code r.arc.kind r.arc.forwardOnly u now
  unfold putLink
  cases r.lifespan with
  | none => exact hown
  | some lifespan =>
    obtain ⟨hconfig, hschedule⟩ := rest_putArc
      (s.putArc i t code r.arc.kind r.arc.forwardOnly u now).2 i t code .timeExpires
      r.arc.forwardOnly (.ending now lifespan) now
    exact ⟨hconfig.trans hown.1, hschedule.trans hown.2⟩

theorem config_connectAll (now : UInt32) (r : ConnectRequest) (code : LabelCode) (u : ArcUpdate)
    (i : CellId) (passing : List CellId) (acc : Nat × Option ArcValue) (s : Store) :
    (connectAll now r code u i passing acc s).2.config = s.config := by
  induction passing generalizing s acc with
  | nil => rfl
  | cons t rest ih =>
    obtain ⟨acc', hstep⟩ := connectAll_cons now r code u i t rest acc s
    obtain ⟨schedule, hrun⟩ := connectTo_snd s now r code u i t
    rw [hstep, ih, hrun]
    exact (rest_putLink s now r code u i t).1

/-! ## The end of a relationship -/

/-- The time at which a request lets the relationship toward a terminal end, if it does. -/
def ending? (s : Store) (r : ConnectRequest) (code : LabelCode) (i t : CellId) : Option UInt32 :=
  if r.Writes .timeExpires then (s.arcAt? i t code .timeExpires).bind (·.value.unsigned?) else none

/-- What is scheduled is the end of a lifespan, or else the value of the request. -/
theorem schedule_connectTo (s : Store) (now : UInt32) (r : ConnectRequest) (code : LabelCode)
    (u : ArcUpdate) (i t : CellId) : (s.connectTo now r code u i t).2.schedule =
      match (match r.lifespan with
        | some lifespan => some (lifespanEnd now lifespan)
        | none =>
          if r.arc.kind = .timeExpires then
            (s.writtenArc i t code r.arc.kind r.arc.forwardOnly u now).value.unsigned?
          else none) with
      | some time => s.schedule.set (.arc (s.cell i).id r.arc.relationship (s.cell t).id) time
      | none => s.schedule := by
  have hvalue : (s.putArc i t code r.arc.kind r.arc.forwardOnly u now).1.2 =
    (s.writtenArc i t code r.arc.kind r.arc.forwardOnly u now).value := rfl
  have hframe := sameFrame_putArc (s := s) (i := i) (t := t) code r.arc.kind r.arc.forwardOnly u now
  have hrest := (rest_putArc s i t code r.arc.kind r.arc.forwardOnly u now).2
  rw [← hvalue]
  cases hput : s.putArc i t code r.arc.kind r.arc.forwardOnly u now with
  | mk a s₁ =>
    rw [hput] at hframe hrest
    have htouched : ∀ (s' : Store) (c : CellId), s.SameFrame s' →
        (((s'.modifyData i (·.touch now)).modifyData t (·.touch now)).cell c).id =
          (s.cell c).id := by
      intro s' c h
      have hkeeps := Action.keepsArcs_touch now
      exact ((h.trans (hkeeps.sameFrame s' i)).trans (hkeeps.sameFrame _ t)).id c
    have hset : ∀ (s' : Store) (time : UInt32), s.SameFrame s' → s'.schedule = s.schedule →
        let both := (s'.modifyData i (·.touch now)).modifyData t (·.touch now)
        let item := Expiring.arc (both.cell i).id r.arc.relationship (both.cell t).id
        (both.scheduleAt item time).schedule =
          s.schedule.set (.arc (s.cell i).id r.arc.relationship (s.cell t).id) time := by
      intro s' time h hschedule both item
      have hitem : item = .arc (s.cell i).id r.arc.relationship (s.cell t).id := by
        rw [← htouched s' i h, ← htouched s' t h]
      rw [hitem, ← hschedule]
      rfl
    simp only [connectTo, hput]
    cases r.lifespan with
    | some lifespan =>
      refine hset _ _ (hframe.trans (sameFrame_putArc ..)) ?_
      exact (rest_putArc ..).2.trans hrest
    | none =>
      dsimp only
      generalize (if r.arc.kind = ArcKind.timeExpires then a.2.unsigned? else none) = ending
      cases ending with
      | some time => exact hset s₁ time hframe hrest
      | none => exact hrest

/-- The end that is scheduled is the one in the slot. -/
theorem time?_connectTo (hs : s.Sound agree) (hi : s.Live i) (ht : s.Live t) (now : UInt32)
    (r : ConnectRequest) (code : LabelCode) (u : ArcUpdate) (item : Expiring) :
    (s.connectTo now r code u i t).2.schedule.time? item =
      if item = .arc (s.cell i).id r.arc.relationship (s.cell t).id then
        ((s.connectTo now r code u i t).2.ending? r code i t).or (s.schedule.time? item)
      else s.schedule.time? item := by
  have hslot := (linked_connectTo hs hi ht now r code u).arcAt i t code .timeExpires ht
  rw [if_pos ⟨rfl, List.mem_singleton_self t, rfl⟩] at hslot
  have hending : (match r.lifespan with
      | some lifespan => some (lifespanEnd now lifespan)
      | none =>
        if r.arc.kind = .timeExpires then
          (s.writtenArc i t code r.arc.kind r.arc.forwardOnly u now).value.unsigned?
        else none) = (s.connectTo now r code u i t).2.ending? r code i t := by
    rw [ending?, hslot]
    cases hlifespan : r.lifespan with
    | some lifespan =>
      obtain ⟨a, ha, hvalue, _⟩ := leaves_ending now code u (s.arcAt? i t code .timeExpires)
        hlifespan
      have hwrites : r.Writes .timeExpires := .inr ⟨by rw [hlifespan]; rfl, rfl⟩
      rw [if_pos hwrites, ha, Option.bind_some, hvalue]
      rfl
    | none =>
      dsimp only
      by_cases hkind : r.arc.kind = .timeExpires
      · have hown : r.leaves now code u r.arc.kind (s.arcAt? i t code .timeExpires) =
            some (u.over code r.arc.kind r.arc.forwardOnly now (s.arcAt? i t code .timeExpires)) :=
          leaves_own fun h => by simp [hlifespan] at h
        have hwrites : r.Writes .timeExpires := .inl hkind.symm
        rw [hkind] at hown
        rw [if_pos hkind, if_pos hwrites, hown, hkind]
        rfl
      · rw [if_neg hkind, if_neg]
        rintro (h | ⟨h, _⟩)
        · exact hkind h.symm
        · simp [hlifespan] at h
  rw [schedule_connectTo, hending]
  cases (s.connectTo now r code u i t).2.ending? r code i t with
  | some time =>
    dsimp only
    rw [Schedule.time?_set]
    simp only [eq_comm, Option.some_or]
  | none => exact (ite_self _).symm

/-- Toward every terminal the end of the relationship is scheduled that is in its slot; nothing
else is. -/
theorem time?_connectAll (hs : s.Sound agree) (hi : s.Live i) (hpassing : ∀ t ∈ passing, s.Live t)
    (hnodup : passing.Nodup) (now : UInt32) (r : ConnectRequest) (code : LabelCode)
    (u : ArcUpdate) (acc : Nat × Option ArcValue) :
    (∀ t ∈ passing, (connectAll now r code u i passing acc s).2.schedule.time?
        (.arc (s.cell i).id r.arc.relationship (s.cell t).id) =
      ((connectAll now r code u i passing acc s).2.ending? r code i t).or
        (s.schedule.time? (.arc (s.cell i).id r.arc.relationship (s.cell t).id))) ∧
      ∀ item, (∀ t ∈ passing, item ≠ .arc (s.cell i).id r.arc.relationship (s.cell t).id) →
        (connectAll now r code u i passing acc s).2.schedule.time? item =
          s.schedule.time? item := by
  induction passing generalizing s acc with
  | nil => exact ⟨fun t ht => absurd ht List.not_mem_nil, fun _ _ => rfl⟩
  | cons t rest ih =>
    obtain ⟨hnew, hnodup⟩ := List.nodup_cons.1 hnodup
    obtain ⟨acc', hstep⟩ := connectAll_cons now r code u i t rest acc s
    have ht := hpassing t List.mem_cons_self
    have hrest : ∀ t' ∈ rest, s.Live t' := fun t' ht' => hpassing t' (List.mem_cons_of_mem t ht')
    have hfirst := linked_connectTo hs hi ht now r code u
    have htime := time?_connectTo hs hi ht now r code u
    have hframe := hfirst.writing.frame
    have hs₁ := Steps.sound hfirst.writing.steps hs
    have hlive₁ : ∀ t' ∈ rest, (s.connectTo now r code u i t).2.Live t' :=
      fun t' ht' => hframe.live_iff.2 (hrest t' ht')
    obtain ⟨hlater, hothers⟩ := ih hs₁ (hframe.live_iff.2 hi) hlive₁ hnodup acc'
    have hlinked := linked_connectAll hs₁ (hframe.live_iff.2 hi) hlive₁ hnodup now r code u acc'
    rw [hstep]
    simp only [hframe.id] at hlater hothers
    generalize hs₂ : (connectAll now r code u i rest acc' (s.connectTo now r code u i t).2).2 = s₂
      at hlater hothers hlinked ⊢
    -- the terminals have different identifiers
    have happart : ∀ t' ∈ rest, Expiring.arc (s.cell i).id r.arc.relationship (s.cell t').id ≠
        .arc (s.cell i).id r.arc.relationship (s.cell t).id := by
      intro t' ht' he
      have hid := (Expiring.arc.inj he).2.2
      exact hnew (hs.placed.eq_of_id (hrest t' ht') ht hid ▸ ht')
    refine ⟨fun t' ht' => ?_, fun item hitem => ?_⟩
    · rcases List.mem_cons.1 ht' with rfl | ht'
      · have hsame : s₂.ending? r code i t' =
            (s.connectTo now r code u i t').2.ending? r code i t' := by
          rw [ending?, ending?, hlinked.arcAt?_of_notMem (hframe.live_iff.2 ht) hnew]
        rw [hothers _ fun t ht => (happart t ht).symm, htime, if_pos rfl, hsame]
      · rw [hlater t' ht', htime, if_neg (happart t' ht')]
    · rw [hothers item fun t' ht' => hitem t' (List.mem_cons_of_mem t ht'), htime,
        if_neg (hitem t List.mem_cons_self)]

end Store

end Arcbase
