import Arcbase.Proofs.Action.Connecting
import Arcbase.Proofs.Scene.Moves
set_option autoImplicit false

/-!
# What a connect writes, slot by slot

A connect writes the slots of one relationship from its initial toward the terminals that it
admits, one terminal after the other.  What it makes of such a slot depends on nothing but
what was in it (`ConnectRequest.leaves`), as long as no terminal comes twice; all other slots
stay as they are, on both sides (`Linked`).

* `Linked.andThen`: two changes toward the same terminals, one after the other;
* `Linked.cons`: the same change toward one terminal more;
* `linked_connectAll`, `count_connectAll`: the whole of a connect.
-/

namespace Arcbase

/-- The arc that an update puts into a slot. -/
def ArcUpdate.over (u : ArcUpdate) (code : LabelCode) (kind : ArcKind) (forwardOnly : Bool)
    (now : UInt32) (old : Option StoredArc) : StoredArc :=
  { relationship := code
    kind
    value := u.apply kind (old.map (·.value)) now
    forwardOnly := old.elim forwardOnly (·.forwardOnly) }

/-- What a write of one kind makes of a slot of any kind. -/
def ArcUpdate.fill (u : ArcUpdate) (code : LabelCode) (kind : ArcKind) (forwardOnly : Bool)
    (now : UInt32) (kind' : ArcKind) (old : Option StoredArc) : Option StoredArc :=
  if kind' = kind then some (u.over code kind forwardOnly now old) else old

/-- The update that ends a relationship. -/
def ArcUpdate.ending (now lifespan : UInt32) : ArcUpdate :=
  .set (some (.unsigned (Store.lifespanEnd now lifespan)))

namespace ConnectRequest

/-- Whether a request writes slots of a kind. -/
def Writes (r : ConnectRequest) (kind : ArcKind) : Prop :=
  kind = r.arc.kind ∨ r.lifespan.isSome = true ∧ kind = .timeExpires

/-- What a request makes of a slot toward a terminal that it admits. -/
def leaves (r : ConnectRequest) (now : UInt32) (code : LabelCode) (u : ArcUpdate)
    (kind : ArcKind) (old : Option StoredArc) : Option StoredArc :=
  let own := u.fill code r.arc.kind r.arc.forwardOnly now kind old
  match r.lifespan with
  | some lifespan =>
    (ArcUpdate.ending now lifespan).fill code .timeExpires r.arc.forwardOnly now kind own
  | none => own

end ConnectRequest

section Leaves

variable {now : UInt32} {r : ConnectRequest} {code : LabelCode} {u : ArcUpdate} {kind : ArcKind}
  {old : Option StoredArc}

theorem leaves_own (hkind : ¬ (r.arc.kind = .timeExpires ∧ r.lifespan.isSome = true)) :
    r.leaves now code u r.arc.kind old =
      some (u.over code r.arc.kind r.arc.forwardOnly now old) := by
  cases hlifespan : r.lifespan with
  | none => simp only [ConnectRequest.leaves, hlifespan, ArcUpdate.fill, if_true]
  | some lifespan =>
    rw [hlifespan] at hkind
    have hne : r.arc.kind ≠ .timeExpires := fun he => hkind ⟨he, rfl⟩
    simp only [ConnectRequest.leaves, hlifespan, ArcUpdate.fill, if_true, if_neg hne]

variable (now code u old) in
theorem leaves_ending {lifespan : UInt32} (h : r.lifespan = some lifespan) :
    ∃ a, r.leaves now code u .timeExpires old = some a ∧
      a.value = .unsigned (Store.lifespanEnd now lifespan) ∧
        a.forwardOnly = old.elim r.arc.forwardOnly (·.forwardOnly) := by
  simp only [ConnectRequest.leaves, h, ArcUpdate.fill, if_true]
  refine ⟨_, rfl, ?_, ?_⟩
  · simp only [ArcUpdate.over, ArcUpdate.ending, ArcUpdate.apply]
  · by_cases hkind : ArcKind.timeExpires = r.arc.kind
    · simp only [ArcUpdate.over, if_pos hkind, Option.elim_some]
    · simp only [ArcUpdate.over, if_neg hkind]

theorem leaves_of_not_writes (h : ¬ r.Writes kind) : r.leaves now code u kind old = old := by
  simp only [ConnectRequest.Writes, not_or, not_and] at h
  cases hlifespan : r.lifespan with
  | none => simp only [ConnectRequest.leaves, hlifespan, ArcUpdate.fill, if_neg h.1]
  | some lifespan =>
    rw [hlifespan] at h
    simp only [ConnectRequest.leaves, hlifespan, ArcUpdate.fill, if_neg h.1, if_neg (h.2 rfl)]

end Leaves

namespace Store

variable {agree : Agreement} {s s' s'' : Store} {i t : CellId} {code : LabelCode}
  {f f' : ArcKind → Option StoredArc → Option StoredArc} {K K' : ArcKind → Prop}
  {passing rest : List CellId} {now : UInt32} {r : ConnectRequest} {u : ArcUpdate}

/-- In the slots of a relationship from `i` toward some terminals, those of the kinds `K` have
been changed by `f`.  All other slots are as they were, and so are the vertices. -/
structure Linked (i : CellId) (code : LabelCode) (f : ArcKind → Option StoredArc → Option StoredArc)
    (K : ArcKind → Prop) (passing : List CellId) (s s' : Store) : Prop where
  writing : Writing (fun _ => True) s s'
  labels : s'.labels = s.labels
  idle : ∀ kind old, ¬ K kind → f kind old = old
  arcAt : ∀ i' t' code' kind, s.Live t' → s'.arcAt? i' t' code' kind =
    if i = i' ∧ t' ∈ passing ∧ code = code' then f kind (s.arcAt? i t' code kind)
    else s.arcAt? i' t' code' kind
  inwardAt : ∀ i' t' code' kind, s.Live i' → s.Live t' →
    ¬ (i = i' ∧ t' ∈ passing ∧ code = code' ∧ K kind) →
      s'.inwardAt? i' t' code' kind = s.inwardAt? i' t' code' kind
  /-- Where something has been written both sides hold the same. -/
  mirrored : ∀ t' ∈ passing, ∀ kind, K kind →
    s'.inwardAt? i t' code kind = s'.regularOut i t' code kind

/-! ## Changes that write no arcs -/

theorem linked_modifyData {c : CellId} {g : VertexData → VertexData} (hg : KeepsArcs g) :
    Linked i code (fun _ old => old) (fun _ => False) passing s (s.modifyData c g) := by
  have hframe := hg.sameFrame s c
  have hdata : ∀ c', ((s.modifyData c g).data c').out = (s.data c').out ∧
      ((s.modifyData c g).data c').inbound = (s.data c').inbound := by
    intro c'
    rw [data_modifyData_ite]
    split
    · exact ⟨(hg _).1, (hg _).2.1⟩
    · exact ⟨rfl, rfl⟩
  refine ⟨writing_modifyData trivial hg, rfl, fun _ _ _ => rfl, ?_, ?_, fun _ _ _ => False.elim⟩
  · intro i' t' code' kind _
    have hsame : (s.modifyData c g).arcAt? i' t' code' kind = s.arcAt? i' t' code' kind := by
      rw [Store.arcAt?, (hdata i').1, hframe.key, Store.arcAt?]
    rw [hsame]
    split
    next h => rw [h.1, h.2.2]
    next => rfl
  · intro i' t' code' kind _ _ _
    rw [Store.inwardAt?, (hdata t').2, keyOf, hframe.key, Store.inwardAt?, keyOf]

theorem linked_schedule (s : Store) (schedule : Schedule) :
    Linked i code (fun _ old => old) (fun _ => False) passing s { s with schedule } := by
  refine ⟨⟨.single (.schedule s _), rfl, sameFrame_of_cells rfl rfl⟩, rfl, fun _ _ _ => rfl,
    fun i' t' code' kind _ => ?_, fun _ _ _ _ _ _ _ => rfl, fun _ _ _ => False.elim⟩
  split
  next h =>
    obtain ⟨rfl, _, rfl⟩ := h
    rfl
  next => rfl

/-! ## One write -/

theorem writtenArc_eq_over (s : Store) (i t : CellId) (code : LabelCode) (kind : ArcKind)
    (forwardOnly : Bool) (u : ArcUpdate) (now : UInt32) :
    s.writtenArc i t code kind forwardOnly u now =
      u.over code kind forwardOnly now (s.arcAt? i t code kind) := rfl

theorem linked_putArc (hs : s.Sound agree) (hi : s.Live i) (ht : s.Live t) (code : LabelCode)
    (kind : ArcKind) (forwardOnly : Bool) (u : ArcUpdate) (now : UInt32) :
    Linked i code (u.fill code kind forwardOnly now) (· = kind) [t] s
      (s.putArc i t code kind forwardOnly u now).2 := by
  have w := wrote_putArc hi ht code kind forwardOnly u now
  have hwriting : Writing (fun _ => True) s (s.putArc i t code kind forwardOnly u now).2 :=
    writing_putArc trivial trivial hi ht code kind forwardOnly u now
  have hslot : ∀ code' kind', (s.writtenArc i t code kind forwardOnly u now).inSlot code' kind' =
      true ↔ code = code' ∧ kind = kind' := fun _ _ => Slots.inSlot_iff
  refine ⟨hwriting, labels_putArc .., fun kind' old hne => if_neg hne, ?_, ?_, ?_⟩
  · intro i' t' code' kind' ht'
    rw [w.initialSide.arcAt? hs.placed ht ht', ArcUpdate.fill]
    simp only [List.mem_singleton]
    by_cases hplace : i = i' ∧ t' = t ∧ code = code'
    · obtain ⟨rfl, rfl, rfl⟩ := hplace
      rw [if_pos (show i = i ∧ t' = t' ∧ code = code from ⟨rfl, rfl, rfl⟩)]
      by_cases hkind : kind' = kind
      · subst hkind
        rw [if_pos ⟨rfl, rfl, (hslot _ _).2 ⟨rfl, rfl⟩⟩, if_pos rfl, writtenArc_eq_over]
      · rw [if_neg fun h => hkind ((hslot _ _).1 h.2.2).2.symm, if_neg hkind]
    · rw [if_neg hplace, if_neg fun h => hplace ⟨h.1, h.2.1.symm, ((hslot _ _).1 h.2.2).1⟩]
  · intro i' t' code' kind' hi' _ hnot
    rw [w.inwardAt? hs.placed hi hi', if_neg]
    rintro ⟨⟨rfl, rfl, hin⟩, _⟩
    obtain ⟨rfl, rfl⟩ := (hslot _ _).1 hin
    exact hnot ⟨rfl, List.mem_singleton_self _, rfl, rfl⟩
  · rintro t' ht' kind' rfl
    obtain rfl := List.mem_singleton.1 ht'
    have hin := (hslot code kind').2 ⟨rfl, rfl⟩
    rw [w.inwardAt? hs.placed hi hi, regularOut, w.initialSide.arcAt? hs.placed ht ht,
      if_pos (show i = i ∧ t' = t' ∧ _ from ⟨rfl, rfl, hin⟩)]
    cases hf : (s.writtenArc i t' code kind' forwardOnly u now).forwardOnly with
    | false =>
      rw [if_pos ⟨⟨rfl, rfl, hin⟩, rfl⟩]
      simp [Option.filter, hf]
    | true =>
      -- the slot has not been that of a regular arc
      have hnone : s.inwardAt? i t' code kind' = none := by
        have hm := hs.paired.mirror i t' hi ht code kind'
        rw [show s.regularOut i t' code kind' = none from w.regularOut_eq_none hf] at hm
        cases hm' : s.inwardAt? i t' code kind' with
        | none => rfl
        | some b =>
          rw [hm'] at hm
          cases hm
      rw [if_neg fun h => Bool.noConfusion h.2, hnone]
      simp [Option.filter, hf]

/-! ## One write after the other -/

theorem Linked.congr (h : Linked i code f K passing s s')
    (hf : ∀ kind old, f' kind old = f kind old) (hK : ∀ kind, K' kind ↔ K kind) :
    Linked i code f' K' passing s s' := by
  obtain rfl : f' = f := funext fun kind => funext fun old => hf kind old
  obtain rfl : K' = K := funext fun kind => propext (hK kind)
  exact h

/-- Two changes toward the same terminals. -/
theorem Linked.andThen (h : Linked i code f K passing s s')
    (h' : Linked i code f' K' passing s' s'') (hi : s.Live i) (hpassing : ∀ t ∈ passing, s.Live t) :
    Linked i code (fun kind old => f' kind (f kind old)) (fun kind => K kind ∨ K' kind) passing
      s s'' := by
  have hlive : ∀ c, s'.Live c ↔ s.Live c := fun c => h.writing.frame.live_iff
  refine ⟨h.writing.trans h'.writing, h'.labels.trans h.labels, fun kind old hnot => ?_, ?_, ?_, ?_⟩
  · rw [h'.idle kind _ fun hk => hnot (.inr hk), h.idle kind old fun hk => hnot (.inl hk)]
  · intro i' t' code' kind ht'
    rw [h'.arcAt i' t' code' kind ((hlive t').2 ht'), h.arcAt i t' code kind ht',
      h.arcAt i' t' code' kind ht']
    by_cases hplace : i = i' ∧ t' ∈ passing ∧ code = code'
    · rw [if_pos hplace, if_pos hplace, if_pos ⟨rfl, hplace.2.1, rfl⟩]
    · rw [if_neg hplace, if_neg hplace, if_neg hplace]
  · intro i' t' code' kind hi' ht' hnot
    rw [h'.inwardAt i' t' code' kind ((hlive i').2 hi') ((hlive t').2 ht')
      fun hw => hnot ⟨hw.1, hw.2.1, hw.2.2.1, .inr hw.2.2.2⟩]
    exact h.inwardAt i' t' code' kind hi' ht'
      fun hw => hnot ⟨hw.1, hw.2.1, hw.2.2.1, .inl hw.2.2.2⟩
  · intro t' ht' kind hk
    by_cases hk' : K' kind
    · exact h'.mirrored t' ht' kind hk'
    · have htl := (hlive t').2 (hpassing t' ht')
      rw [h'.inwardAt i t' code kind ((hlive i).2 hi) htl fun hw => hk' hw.2.2.2,
        h.mirrored t' ht' kind (hk.resolve_right hk'), regularOut, regularOut,
        h'.arcAt i t' code kind htl, if_pos ⟨rfl, ht', rfl⟩, h'.idle kind _ hk']

/-- The same change toward one terminal more. -/
theorem Linked.cons (h : Linked i code f K [t] s s') (h' : Linked i code f K rest s' s'')
    (hi : s.Live i) (ht : s.Live t) (hnew : t ∉ rest) :
    Linked i code f K (t :: rest) s s'' := by
  have hlive : ∀ c, s'.Live c ↔ s.Live c := fun c => h.writing.frame.live_iff
  refine ⟨h.writing.trans h'.writing, h'.labels.trans h.labels, h.idle, ?_, ?_, ?_⟩
  · intro i' t' code' kind ht'
    rw [h'.arcAt i' t' code' kind ((hlive t').2 ht'), h.arcAt i t' code kind ht',
      h.arcAt i' t' code' kind ht']
    by_cases htt : t' = t
    · subst htt
      simp [hnew]
    · simp [htt]
  · intro i' t' code' kind hi' ht' hnot
    rw [h'.inwardAt i' t' code' kind ((hlive i').2 hi') ((hlive t').2 ht')
      fun hw => hnot ⟨hw.1, List.mem_cons_of_mem t hw.2.1, hw.2.2⟩]
    refine h.inwardAt i' t' code' kind hi' ht' fun hw => hnot ⟨hw.1, ?_, hw.2.2⟩
    exact List.mem_singleton.1 hw.2.1 ▸ List.mem_cons_self
  · intro t' ht' kind hk
    rcases List.mem_cons.1 ht' with rfl | ht'
    · rw [h'.inwardAt i t' code kind ((hlive i).2 hi) ((hlive t').2 ht) fun hw => hnew hw.2.1,
        h.mirrored t' (List.mem_singleton_self t') kind hk, regularOut, regularOut,
        h'.arcAt i t' code kind ((hlive t').2 ht), if_neg fun hw => hnew hw.2.1]
    · exact h'.mirrored t' ht' kind hk

theorem linked_nil (hidle : ∀ kind old, ¬ K kind → f kind old = old) (s : Store) :
    Linked i code f K [] s s := by
  refine ⟨.refl s, rfl, hidle, fun i' t' code' kind _ => ?_, fun _ _ _ _ _ _ _ => rfl,
    fun t' ht' => absurd ht' List.not_mem_nil⟩
  rw [if_neg fun h => List.not_mem_nil h.2.1]

/-! ## The arcs to one terminal -/

/-- The arcs of a request to one terminal are put into their slots. -/
def putLink (s : Store) (now : UInt32) (r : ConnectRequest) (code : LabelCode) (u : ArcUpdate)
    (i t : CellId) : Store :=
  let s := (s.putArc i t code r.arc.kind r.arc.forwardOnly u now).2
  match r.lifespan with
  | some lifespan =>
    (s.putArc i t code .timeExpires r.arc.forwardOnly (.ending now lifespan) now).2
  | none => s

/-- What follows touches both ends and schedules an end. -/
theorem connectTo_snd (s : Store) (now : UInt32) (r : ConnectRequest) (code : LabelCode)
    (u : ArcUpdate) (i t : CellId) : ∃ schedule, (s.connectTo now r code u i t).2 =
      { ((s.putLink now r code u i t).modifyData i (·.touch now)).modifyData t (·.touch now) with
        schedule } := by
  cases hput : s.putArc i t code r.arc.kind r.arc.forwardOnly u now with
  | mk answer s₁ =>
    simp only [connectTo, putLink, hput]
    cases r.lifespan with
    | some lifespan => exact ⟨_, rfl⟩
    | none =>
      dsimp only
      split
      · exact ⟨_, rfl⟩
      · exact ⟨_, rfl⟩

theorem linked_putLink (hs : s.Sound agree) (hi : s.Live i) (ht : s.Live t) (now : UInt32)
    (r : ConnectRequest) (code : LabelCode) (u : ArcUpdate) :
    Linked i code (r.leaves now code u) r.Writes [t] s (s.putLink now r code u i t) := by
  have hown := linked_putArc hs hi ht code r.arc.kind r.arc.forwardOnly u now
  have hlive : ∀ t' ∈ [t], s.Live t' := fun t' ht' => List.mem_singleton.1 ht' ▸ ht
  unfold putLink
  cases hlifespan : r.lifespan with
  | none =>
    refine hown.congr (fun kind old => ?_) fun kind => ?_
    · simp only [ConnectRequest.leaves, hlifespan]
    · simp [ConnectRequest.Writes, hlifespan]
  | some lifespan =>
    have hs₁ := Steps.sound hown.writing.steps hs
    have hlive₁ : ∀ c, _ ↔ s.Live c := fun c => hown.writing.frame.live_iff
    have hend := linked_putArc hs₁ ((hlive₁ i).2 hi) ((hlive₁ t).2 ht) code .timeExpires
      r.arc.forwardOnly (.ending now lifespan) now
    refine (hown.andThen hend hi hlive).congr (fun kind old => ?_) fun kind => ?_
    · simp only [ConnectRequest.leaves, hlifespan]
    · simp [ConnectRequest.Writes, hlifespan]

theorem linked_connectTo (hs : s.Sound agree) (hi : s.Live i) (ht : s.Live t) (now : UInt32)
    (r : ConnectRequest) (code : LabelCode) (u : ArcUpdate) :
    Linked i code (r.leaves now code u) r.Writes [t] s (s.connectTo now r code u i t).2 := by
  obtain ⟨schedule, hrun⟩ := connectTo_snd s now r code u i t
  have hput := linked_putLink hs hi ht now r code u
  have hlive : ∀ t' ∈ [t], s.Live t' := fun t' ht' => List.mem_singleton.1 ht' ▸ ht
  have htouch : ∀ (s : Store) (c : CellId), Linked i code (fun _ old => old) (fun _ => False) [t] s
      (s.modifyData c (·.touch now)) :=
    fun s c => linked_modifyData (Action.keepsArcs_touch now)
  rw [hrun]
  exact (((hput.andThen (htouch _ i) hi hlive).andThen (htouch _ t) hi hlive).andThen
    (linked_schedule _ schedule) hi hlive).congr (fun _ _ => rfl) fun kind => by simp

/-- Number of slots toward a terminal that a request fills. -/
def gained (s : Store) (r : ConnectRequest) (code : LabelCode) (i t : CellId) : Nat :=
  (if (s.arcAt? i t code r.arc.kind).isNone then 1 else 0) +
    if r.lifespan.isSome ∧ r.arc.kind ≠ .timeExpires ∧ (s.arcAt? i t code .timeExpires).isNone
    then 1 else 0

theorem size_connectTo (hs : s.Sound agree) (hi : s.Live i) (ht : s.Live t) (now : UInt32)
    (r : ConnectRequest) (code : LabelCode) (u : ArcUpdate) :
    (s.connectTo now r code u i t).2.size = s.size + s.gained r code i t := by
  obtain ⟨schedule, hrun⟩ := connectTo_snd s now r code u i t
  rw [hrun]
  change (s.putLink now r code u i t).size = _
  have hown : (s.putArc i t code r.arc.kind r.arc.forwardOnly u now).2.size =
      s.size + if (s.arcAt? i t code r.arc.kind).isNone then 1 else 0 := by
    rw [size_putArc]
    split <;> rfl
  unfold putLink gained
  cases r.lifespan with
  | none => simpa using hown
  | some lifespan =>
    dsimp only
    rw [size_putArc, hown]
    have w := wrote_putArc hi ht code r.arc.kind r.arc.forwardOnly u now
    have hslot : (s.putArc i t code r.arc.kind r.arc.forwardOnly u now).2.arcAt? i t code
        .timeExpires = _ := w.initialSide.arcAt? hs.placed ht ht code .timeExpires
    by_cases hkind : r.arc.kind = .timeExpires
    · have hfilled : ((s.putArc i t code r.arc.kind r.arc.forwardOnly u now).2.arcAt? i t code
          .timeExpires).isNone = false := by
        rw [hslot, if_pos ⟨rfl, rfl, Slots.inSlot_iff.2 ⟨rfl, hkind⟩⟩]
        rfl
      rw [hfilled]
      simp [hkind]
    · have hsame : (s.putArc i t code r.arc.kind r.arc.forwardOnly u now).2.arcAt? i t code
          .timeExpires = s.arcAt? i t code .timeExpires := by
        rw [hslot, if_neg fun h => hkind (Slots.inSlot_iff.1 h.2.2).2]
      rw [hsame]
      by_cases hvacant : (s.arcAt? i t code .timeExpires).isNone = true
      · simp [hkind, hvacant, Nat.add_assoc]
      · simp [hkind, hvacant]

/-! ## All terminals -/

/-- Writes the arcs of a request to all of its terminals, with the number of new ones and the
last value so far. -/
def connectAll (now : UInt32) (r : ConnectRequest) (code : LabelCode) (u : ArcUpdate) (i : CellId) :
    List CellId → Nat × Option ArcValue → Store → (Nat × Option ArcValue) × Store
  | [], acc, s => (acc, s)
  | t :: rest, acc, s =>
    let ((isNew, value), s) := s.connectTo now r code u i t
    connectAll now r code u i rest (if isNew then acc.1 + 1 else acc.1, some value) s

theorem linked_connectAll (hs : s.Sound agree) (hi : s.Live i) (hpassing : ∀ t ∈ passing, s.Live t)
    (hnodup : passing.Nodup) (now : UInt32) (r : ConnectRequest) (code : LabelCode) (u : ArcUpdate)
    (acc : Nat × Option ArcValue) :
    Linked i code (r.leaves now code u) r.Writes passing s
      (connectAll now r code u i passing acc s).2 := by
  induction passing generalizing s acc with
  | nil =>
    refine linked_nil (fun kind old hnot => ?_) s
    exact leaves_of_not_writes hnot
  | cons t rest ih =>
    obtain ⟨hnew, hnodup⟩ := List.nodup_cons.1 hnodup
    have ht := hpassing t List.mem_cons_self
    have hfirst := linked_connectTo hs hi ht now r code u
    have hlive : ∀ c, _ ↔ s.Live c := fun c => hfirst.writing.frame.live_iff
    exact hfirst.cons (ih (Steps.sound hfirst.writing.steps hs) ((hlive i).2 hi)
      (fun t' ht' => (hlive t').2 (hpassing t' (List.mem_cons_of_mem t ht'))) hnodup _) hi ht hnew

theorem Linked.arcAt?_of_notMem (h : Linked i code f K passing s s') {t' : CellId} (ht : s.Live t')
    (hnot : t' ∉ passing) (kind : ArcKind) :
    s'.arcAt? i t' code kind = s.arcAt? i t' code kind := by
  rw [h.arcAt i t' code kind ht, if_neg fun hw => hnot hw.2.1]

/-- The number of new arcs, the last value, and the size of the store. -/
theorem count_connectAll (hs : s.Sound agree) (hi : s.Live i) (hpassing : ∀ t ∈ passing, s.Live t)
    (hnodup : passing.Nodup) (now : UInt32) (r : ConnectRequest) (code : LabelCode) (u : ArcUpdate)
    (acc : Nat × Option ArcValue) :
    (connectAll now r code u i passing acc s).1.1 =
        acc.1 + passing.countP (fun t => (s.arcAt? i t code r.arc.kind).isNone) ∧
      (passing ≠ [] → (connectAll now r code u i passing acc s).1.2.isSome = true) ∧
      (connectAll now r code u i passing acc s).2.size =
        s.size + (passing.map (s.gained r code i)).sum := by
  induction passing generalizing s acc with
  | nil => exact ⟨rfl, fun h => absurd rfl h, rfl⟩
  | cons t rest ih =>
    obtain ⟨hnew, hnodup⟩ := List.nodup_cons.1 hnodup
    have ht := hpassing t List.mem_cons_self
    have hfirst := linked_connectTo hs hi ht now r code u
    have hlive : ∀ c, _ ↔ s.Live c := fun c => hfirst.writing.frame.live_iff
    have hrest : ∀ t' ∈ rest, s.Live t' := fun t' ht' => hpassing t' (List.mem_cons_of_mem t ht')
    obtain ⟨hcount, hvalue, hsize⟩ := ih (Steps.sound hfirst.writing.steps hs) ((hlive i).2 hi)
      (fun t' ht' => (hlive t').2 (hrest t' ht')) hnodup
      (if (s.arcAt? i t code r.arc.kind).isNone then acc.1 + 1 else acc.1,
        some (s.writtenArc i t code r.arc.kind r.arc.forwardOnly u now).value)
    -- the slots toward the other terminals are as they were
    have hsame : ∀ t' ∈ rest, ∀ kind, (s.connectTo now r code u i t).2.arcAt? i t' code kind =
        s.arcAt? i t' code kind := fun t' ht' kind =>
      hfirst.arcAt?_of_notMem (hrest t' ht')
        (fun hm => hnew (List.mem_singleton.1 hm ▸ ht')) kind
    have hcongr : rest.countP (fun t' =>
        ((s.connectTo now r code u i t).2.arcAt? i t' code r.arc.kind).isNone) =
          rest.countP fun t' => (s.arcAt? i t' code r.arc.kind).isNone :=
      List.countP_congr fun t' ht' => by rw [hsame t' ht']
    have hgained : rest.map ((s.connectTo now r code u i t).2.gained r code i) =
        rest.map (s.gained r code i) :=
      List.map_congr_left fun t' ht' => by rw [gained, gained, hsame t' ht', hsame t' ht']
    refine ⟨?_, fun _ => ?_, ?_⟩
    · refine hcount.trans ?_
      rw [hcongr, List.countP_cons]
      split <;> omega
    · by_cases hrest' : rest = []
      · subst hrest'
        rfl
      · exact hvalue hrest'
    · refine hsize.trans ?_
      rw [hgained, size_connectTo hs hi ht, List.map_cons, List.sum_cons, Nat.add_assoc]

end Store

end Arcbase
