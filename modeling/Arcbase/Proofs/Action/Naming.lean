import Arcbase.Proofs.Action.Confined
import Arcbase.Proofs.Action.Marking
import Arcbase.Proofs.Action.Sweeping
import Arcbase.Proofs.Store.Touching
set_option autoImplicit false

/-!
# Types come with their labels

A vertex gets its type from a creation, under a code that the label of the type has by then;
a deletion takes the type away, and nothing else writes types.  So label tables only grow, and a
type that a vertex did not have before has its label afterwards (`NamesTypes`).
-/

namespace Arcbase

namespace Store

variable {s s' s'' : Store}

/-- The label of every type that is stored is there, with vertices that have been taken out
as well. -/
def TypesNamed (s : Store) : Prop :=
  ∀ c code, (s.data c).type = some code → ∃ label, s.labels.types.decode? code = some label

/-- Labels have been added at most, and a type that a vertex did not have has its label. -/
structure NamesTypes (s s' : Store) : Prop where
  grows : s.labels.Grows s'.labels
  given : ∀ c code, (s'.data c).type = some code →
    (s.data c).type = some code ∨ ∃ label, s'.labels.types.decode? code = some label

theorem TypesNamed.names (h : s.TypesNamed) (hn : NamesTypes s s') : s'.TypesNamed := by
  intro c code htype
  rcases hn.given c code htype with hbefore | hnamed
  · obtain ⟨label, hlabel⟩ := h c code hbefore
    exact ⟨label, hn.grows.types_keeps code label hlabel⟩
  · exact hnamed

theorem NamesTypes.refl (s : Store) : NamesTypes s s := ⟨.refl, fun _ _ => .inl⟩

theorem NamesTypes.trans (h : NamesTypes s s') (h' : NamesTypes s' s'') : NamesTypes s s'' := by
  refine ⟨h.grows.trans h'.grows, fun c code htype => ?_⟩
  rcases h'.given c code htype with hbetween | hnamed
  · refine (h.given c code hbetween).imp_right ?_
    rintro ⟨label, hlabel⟩
    exact ⟨label, h'.grows.types_keeps code label hlabel⟩
  · exact .inr hnamed

instance : IsPreorder Store NamesTypes where
  refl := .refl
  trans _ _ _ := .trans

/-- Types stay as they are, or are dropped. -/
theorem namesTypes_of_types (hg : s.labels.Grows s'.labels)
    (htype : ∀ c, (s'.data c).type = (s.data c).type ∨ (s'.data c).type = none) :
    NamesTypes s s' := by
  refine ⟨hg, fun c code hcode => .inl ?_⟩
  rcases htype c with hsame | hnone
  · rw [← hsame, hcode]
  · rw [hcode] at hnone
    cases hnone

theorem namesTypes_of_cells (hg : s.labels.Grows s'.labels) (hc : s'.cells = s.cells) :
    NamesTypes s s' :=
  namesTypes_of_types hg fun c => .inl (by rw [data, cell, hc, data, cell])

theorem slotless_type : Slotless VertexData.type :=
  ⟨fun _ _ => rfl, fun _ _ => rfl, fun _ _ => rfl, fun _ _ => rfl, fun _ _ => rfl⟩

theorem SameReading.namesTypes (h : SameReading VertexData.type s s') : NamesTypes s s' :=
  namesTypes_of_types (h.labels ▸ .refl) fun c => .inl (h.reading c)

theorem namesTypes_modifyData (s : Store) (c : CellId) {f : VertexData → VertexData}
    (hf : ∀ d, (f d).type = d.type ∨ (f d).type = none) : NamesTypes s (s.modifyData c f) := by
  refine namesTypes_of_types .refl fun c' => ?_
  rw [data_modifyData_ite]
  split
  · exact hf _
  · exact .inl rfl

/-- A vertex gets a type that has its label. -/
theorem namesTypes_type (s : Store) (c : CellId) {code : Option LabelCode}
    (hcode : ∀ x, code = some x → ∃ label, s.labels.types.decode? x = some label) :
    NamesTypes s (s.modifyData c fun d => { d with type := code }) := by
  refine ⟨.refl, fun c' x htype => ?_⟩
  rw [data_modifyData_ite] at htype
  split at htype
  · exact .inr (hcode x htype)
  · exact .inl htype

theorem namesTypes_drop (s : Store) (g : Guard) : NamesTypes s (s.drop g) :=
  (sameReading_drop slotless_type s g).namesTypes

theorem data_new_type {id : String} {manifestation : Manifestation} {now : UInt32} (c : CellId) :
    ((s.addCell { id, key := .of id, data := .new manifestation now }).data c).type =
      (s.data c).type := by
  simp only [data, cell, addCell, Array.getElem?_push]
  split
  next e =>
    rw [e, Array.getElem?_eq_none (Nat.le_refl _)]
    rfl
  next => rfl

/-! ## Connecting -/

variable {i t : CellId}

theorem type_putArc (hi : i < s.cells.size) (ht : t < s.cells.size) (code : LabelCode)
    (kind : ArcKind) (forwardOnly : Bool) (u : ArcUpdate) (now : UInt32) (c : CellId) :
    ((s.putArc i t code kind forwardOnly u now).2.data c).type = (s.data c).type := by
  rw [data_putArc code kind forwardOnly u now hi ht]
  rfl

theorem type_putLink (hi : i < s.cells.size) (ht : t < s.cells.size) (now : UInt32)
    (r : ConnectRequest) (code : LabelCode) (u : ArcUpdate) (c : CellId) :
    ((s.putLink now r code u i t).data c).type = (s.data c).type := by
  have hown := type_putArc hi ht code r.arc.kind r.arc.forwardOnly u now c
  unfold putLink
  cases r.lifespan with
  | none => exact hown
  | some lifespan =>
    have hcount := (sameFrame_putArc (s := s) (i := i) (t := t) code r.arc.kind r.arc.forwardOnly
      u now).count
    exact (type_putArc (hcount ▸ hi) (hcount ▸ ht) ..).trans hown

/-- Arcs are written, and nothing else but the times of their ends. -/
theorem namesTypes_connectTo {agree : Agreement} (hs : s.Sound agree) (hi : s.Live i)
    (ht : s.Live t) (now : UInt32) (r : ConnectRequest) (code : LabelCode) (u : ArcUpdate) :
    NamesTypes s (s.connectTo now r code u i t).2 := by
  have hlabels := (linked_connectTo hs hi ht now r code u).labels
  refine namesTypes_of_types (hlabels ▸ .refl) fun c => .inl ?_
  obtain ⟨schedule, hrun⟩ := connectTo_snd s now r code u i t
  have htouch : ∀ (s : Store) (c' : CellId),
      ((s.modifyData c' (·.touch now)).data c).type = (s.data c).type := by
    intro s c'
    rw [data_modifyData_ite]
    split <;> rfl
  have htouched : ((s.connectTo now r code u i t).2.data c).type =
      ((((s.putLink now r code u i t).modifyData i (·.touch now)).modifyData t
        (·.touch now)).data c).type := by
    rw [hrun]
    rfl
  rw [htouched, htouch, htouch, type_putLink hi.1 ht.1]

end Store

namespace Action

open Store

variable {agree : Agreement} {G : List Guard} {who : Caller} {s s' : Store} {id : String}

/-- Where labels and codes stand for each other they go on doing so. -/
theorem keeps_of_namesTypes (hl : s.labels.Valid) (h : NamesTypes s s') :
    Keeps (fun s => s.labels.Valid) NamesTypes s s' := ⟨hl.grows h.grows, h⟩

theorem tolerates_namesTypes (agree : Agreement) (now : UInt32) :
    Tolerates agree now (fun s => s.labels.Valid) NamesTypes where
  locks _ _ hl := keeps_of_namesTypes hl (namesTypes_of_cells .refl rfl)
  labels _ label hl :=
    keeps_of_namesTypes hl (namesTypes_of_cells (Labels.Grows.refl.relationship label) rfl)
  types _ label hl :=
    keeps_of_namesTypes hl (namesTypes_of_cells (Labels.Grows.refl.type label) rfl)
  promote s c _ hl := by
    refine keeps_of_namesTypes hl (namesTypes_modifyData s c fun d => .inl ?_)
    rw [VertexData.promote]
    split <;> rfl
  edit s c _ _ _ hkept hl :=
    keeps_of_namesTypes hl (namesTypes_modifyData s c fun d => .inl (hkept d).2.2)
  collect s c _ hl :=
    keeps_of_namesTypes hl (sameReading_collectOrphan slotless_type s c).namesTypes
  add _ _ _ _ _ hl :=
    keeps_of_namesTypes hl (namesTypes_of_types .refl fun c => .inl (data_new_type c))

theorem writes_namesTypes (agree : Agreement) (now : UInt32) (r : ConnectRequest)
    (u : ArcUpdate) : Writes agree now (fun s => s.labels.Valid) NamesTypes (fun _ _ => True) r
      u where
  kept _ _ _ _ _ := trivial
  named _ _ _ _ := trivial
  write code _ _ _ hs hl hi ht _ _ :=
    keeps_of_namesTypes hl (namesTypes_connectTo hs hi ht now r code u)

/-! ## Creating -/

/-- The label of a type that is asked for, if any, is there. -/
def NamesCode (code : Option LabelCode) (s : Store) : Prop :=
  ∀ x, code = some x → ∃ label, s.labels.types.decode? x = some label

theorem NamesCode.names {code : Option LabelCode} (hcode : NamesCode code s)
    (h : NamesTypes s s') : NamesCode code s' := by
  intro x hx
  obtain ⟨label, hlabel⟩ := hcode x hx
  exact ⟨label, h.grows.types_keeps x label hlabel⟩

theorem confined_namesCode (type : Option String) :
    Confined agree (fun s => s.labels.Valid) NamesTypes (fun _ => True) (type.mapM encodeType)
      NamesCode := by
  cases type with
  | none => exact confined_pure fun s _ x hx => nomatch hx
  | some label =>
    refine confined_bind (M := fun code => NamesCode (some code))
      (confined_ofFun fun s hs hl _ => ?_) fun code => confined_pure fun _ h => h
    have hgrows : s.labels.Grows (s.labels.encodeType label).2 := Labels.Grows.refl.type label
    have hn : NamesTypes s { s with labels := (s.labels.encodeType label).2 } :=
      namesTypes_of_cells hgrows rfl
    refine ⟨hs.withLabels _, hl.grows hgrows, hn, fun code hcode x hx => ?_⟩
    obtain rfl := Option.some.inj hx
    exact ⟨label, hl.decode_type hcode⟩

theorem confined_typing (c : CellId) (code : Option LabelCode) :
    Confined agree (fun s => s.labels.Valid) NamesTypes (NamesCode code)
      (update (·.modifyData c fun d => { d with type := code })) fun _ _ => True := by
  have hf : KeepsArcs fun d => { d with type := code } := fun _ => ⟨rfl, rfl, rfl, rfl, rfl⟩
  exact confined_ofFun fun s hs hl hcode =>
    ⟨(Step.attributes (W := fun _ => True) trivial hf).sound hs, hl, namesTypes_type s c hcode,
      fun _ _ => trivial⟩

/-- What is done with a vertex that was there and whose type, if any, does not clash. -/
theorem confined_retyping (c : CellId) (code : Option LabelCode) (d : VertexData) :
    Confined agree (fun s => s.labels.Valid) NamesTypes (NamesCode code)
      (do
        if code.isSome then update (·.modifyData c fun d => { d with type := code })
        update (·.modifyData c (·.promote who.now))
        return if d.manifestation = .virtual then 1 else 0 : Action Nat) fun _ _ => True := by
  have hpromote : Confined agree (fun s => s.labels.Valid) NamesTypes (fun _ => True)
      (update (·.modifyData c (·.promote who.now))) fun _ _ => True :=
    (tolerates_namesTypes agree who.now).promoting frameStable_true
  have hend := confined_bind hpromote fun _ =>
    confined_pure (x := if d.manifestation = .virtual then 1 else 0) (Q := fun _ _ => True)
      fun _ h => h
  dsimp only
  by_cases hsome : code.isSome = true
  · rw [if_pos hsome]
    exact confined_bind (confined_typing c code) fun _ => hend
  · rw [if_neg hsome]
    exact hend.weaken (fun _ _ => trivial) fun _ _ h => h

/-- A creation gives a type whose label it has encoded. -/
theorem create_namesTypes (id : String) (type : Option String) :
    Confined agree (fun s => s.labels.Valid) NamesTypes (fun _ => True) (create who id type)
      fun _ _ => True := by
  have tol := tolerates_namesTypes agree who.now
  unfold create
  refine confined_bind confined_checkWritable fun _ => ?_
  refine confined_bind (confined_namesCode type) fun code => ?_
  refine confined_bind (((tol.findingOrAdding []).frame (N := NamesCode code) fun _ _ h hcode =>
    hcode.names h).weaken (fun _ h => ⟨h, allLive_nil⟩) fun _ _ h => h.1) fun (c, isNew) => ?_
  refine tol.holding (Q := fun _ _ => True) (fun _ _ h => h) ?_
  cases isNew with
  | true => exact confined_bind (confined_typing c code) fun _ => confined_pure fun _ h => h
  | false =>
    refine confined_bind confined_read_any fun d => ?_
    dsimp only
    split
    · split
      · exact confined_bind confined_read_any fun _ =>
          confined_bind (M := fun _ _ => False) confined_fail fun _ _ _ _ _ _ hp => hp.elim
      · exact confined_retyping c _ d
    · exact confined_retyping c _ d

/-! ## Deleting and disconnecting -/

/-- A deletion drops the type of its vertex. -/
theorem Walked.namesTypes {c : CellId} {g : Guard} {locks : LockTable} {rm : Removal} {s₁ : Store}
    (walk : Walked who (g :: G) c .all .any none rm (stripped who c s locks) s₁) :
    NamesTypes s (s₁.less rm.removed) := by
  have hlocks : NamesTypes s { s with locks } := namesTypes_of_cells .refl rfl
  have hstripped : NamesTypes { s with locks } (stripped who c s locks) :=
    namesTypes_modifyData _ c fun _ => .inr rfl
  have hless : NamesTypes s₁ (s₁.less rm.removed) := namesTypes_of_cells .refl rfl
  exact ((hlocks.trans hstripped).trans (walk.readings slotless_type).namesTypes).trans hless

theorem namesTypes_leftOver (id : String) (c : CellId) (s : Store) :
    NamesTypes s (leftOver who id c s) := by
  have hmarked : NamesTypes s (s.modifyData c fun d => { d with expires := some who.now }) :=
    namesTypes_modifyData s c fun _ => .inl rfl
  exact hmarked.trans (namesTypes_of_cells .refl rfl)

theorem namesTypes_takenOut (c : CellId) (s : Store) : NamesTypes s (takenOut c s) := by
  rw [takenOut]
  split
  · exact namesTypes_modifyData s c fun _ => .inl rfl
  · exact (sameReading_remove slotless_type s c).namesTypes

theorem DeleteRun.namesTypes {r : Except Error Nat} (h : DeleteRun who id G s r s') :
    NamesTypes s s' := by
  cases h with
  | refused => exact .refl s
  | missing => exact .refl s
  | incomplete held walk blocked =>
    exact (walk.namesTypes.trans (namesTypes_leftOver id _ _)).trans (namesTypes_drop _ _)
  | complete held walk free =>
    exact (walk.namesTypes.trans (namesTypes_takenOut _ _)).trans (namesTypes_drop _ _)

theorem DisconnectRun.namesTypes {anchor : String} {probe : Probe} {neighbor : Option String}
    {r : Except Error Nat} (h : DisconnectRun who anchor probe neighbor G s r s') :
    NamesTypes s s' := by
  cases h with
  | refused => exact .refl s
  | unfit => exact .refl s
  | missing => exact .refl s
  | @alone c g locks id held =>
    have hlocks : NamesTypes s { s with locks } := namesTypes_of_cells .refl rfl
    exact hlocks.trans (namesTypes_drop _ g)
  | @walked c g locks filter n rm s₁ held probed wanted walk =>
    have hlocks : NamesTypes s { s with locks } := namesTypes_of_cells .refl rfl
    have hless : NamesTypes s₁ (s₁.less rm.removed) := namesTypes_of_cells .refl rfl
    exact ((hlocks.trans (walk.readings slotless_type).namesTypes).trans hless).trans
      (namesTypes_drop _ g)

/-! ## Expiring -/

theorem namesTypes_expire {item : Expiring} {outcome : Except Error (Nat × Nat)}
    (hs : s.Sound agree) (hg : s.Guarded G) (hrun : (expire who item).run s = (outcome, s')) :
    NamesTypes s s' := by
  cases run_expire hs hg hrun with
  | vertex run => exact run.namesTypes
  | arc run => exact run.namesTypes

theorem namesTypes_tryAll {items : List Expiring} (hs : s.Sound agree) (hg : s.Guarded G) :
    NamesTypes s (tryAll who items s) := by
  induction items generalizing s with
  | nil => exact .refl s
  | cons item rest ih =>
    obtain ⟨hs₁, hg₁⟩ := sound_item who hs hg item
    exact (namesTypes_expire hs hg rfl).trans (ih hs₁ hg₁)

theorem namesTypes_runExpiration {time : UInt32} {r : Except Error ExpirationReport}
    (hs : s.Sound agree) (hg : s.Guarded G) (hrun : (runExpiration who time).run s = (r, s')) :
    NamesTypes s s' := by
  rcases run_runExpiration hrun with ⟨_, _, rfl⟩ | ⟨_, report, again, s₁, _, _, run, rfl⟩
  · exact .refl s'
  · obtain ⟨hs₀, hg₀⟩ := sound_popped hs hg time
    have hpopped : NamesTypes s (popped time s) := namesTypes_of_cells .refl rfl
    have htried : NamesTypes (popped time s) s₁ := by
      rw [run.store]
      exact namesTypes_tryAll hs₀ hg₀
    exact (hpopped.trans htried).trans (namesTypes_of_cells .refl rfl)

/-! ## Marking -/

theorem namesTypes_expireAt (s : Store) (c : CellId) (time : UInt32) :
    NamesTypes s (s.expireAt c time) := namesTypes_modifyData s c fun _ => .inl rfl

theorem namesTypes_setExpiration (g : Guard) (time : UInt32) (s : Store) :
    NamesTypes s ((setExpiration g time).run s).2 := by
  rw [run_setExpiration]
  split
  · exact (namesTypes_expireAt s _ time).trans (namesTypes_of_cells .refl rfl)
  · exact .refl s

theorem namesTypes_markExpiring {time : UInt32} {r : Except Error Unit} (hg : s.Guarded G)
    (hrun : (markExpiring who id time).run s = (r, s')) : NamesTypes s s' := by
  rcases run_markExpiring hg hrun with ⟨_, rfl⟩ | ⟨c, g, locks, _, _, rfl⟩
  · exact .refl s'
  · have hlocks : NamesTypes s { s with locks } := namesTypes_of_cells .refl rfl
    have hmarked := hlocks.trans (namesTypes_expireAt { s with locks } g.item.slot time)
    have hscheduled : NamesTypes s ((({ s with locks } : Store).expireAt g.item.slot
        time).scheduleAt (.vertex g.item.label) time) :=
      hmarked.trans (namesTypes_of_cells .refl rfl)
    exact hscheduled.trans (namesTypes_drop _ g)

end Action

end Arcbase
