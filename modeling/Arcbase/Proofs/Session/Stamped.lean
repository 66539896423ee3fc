import Arcbase.Proofs.Action.Stamping
import Arcbase.Proofs.Session.Confined
set_option autoImplicit false

/-!
# Changes are stamped

An operation stamps every vertex that it changes with its time (`stamped_after`): the vertex
itself if its type, its manifestation, its properties or its vector differ, and both ends of
every arc that comes, goes or gets another value.

There are two exceptions.  A creation that gives a type to a real vertex without one does not
stamp it.  And arcs from a vertex to itself are taken off without a stamp, be it by a
disconnect or because they have expired (`not_stamped_bareSelf`).
-/

namespace Arcbase

open Arcbase.Action Store

/-- What a vertex is to its graph, apart from its dates. -/
@[ext]
structure Aspect where
  type : Option LabelCode
  manifestation : Manifestation
  properties : PropertyMap
  vector : Option (List Binary32)
  /-- All arcs from and to the vertex, the forward-only ones among them, as they stand at
  their starts. -/
  arcs : Set PlacedArc
  /-- The regular inbound arcs, as they stand at the vertex itself. -/
  inward : Set (VertexKey × StoredArc)
  forwardOnlyIn : Nat

/-- Of a vertex nothing has changed, but that it may have lost arcs to itself. -/
structure Aspect.Unlooped (key : VertexKey) (a a' : Aspect) : Prop where
  type : a'.type = a.type
  manifestation : a'.manifestation = a.manifestation
  properties : a'.properties = a.properties
  vector : a'.vector = a.vector
  arcs : a'.arcs ⊆ a.arcs
  lost : ∀ p ∈ a.arcs, p ∉ a'.arcs → p.initial = key ∧ p.terminal = key
  inward : a'.inward ⊆ a.inward
  lostInward : ∀ e ∈ a.inward, e ∉ a'.inward → e.1 = key

namespace Store

def aspect (s : Store) (c : CellId) : Aspect :=
  { type := (s.data c).type
    manifestation := (s.data c).manifestation
    properties := (s.data c).properties
    vector := (s.data c).vector
    arcs := {p | p ∈ s.arcs ∧ p.touches (s.keyOf c)}
    inward := {e | e ∈ (s.data c).inbound.entries}
    forwardOnlyIn := (s.data c).forwardOnlyIn }

end Store

/-! ## The exceptions -/

/-- Whether a request is to give a type to a real vertex without one. -/
def Request.Types {α : Type} (s : Store) (c : CellId) : Request α → Prop
  | .create id (some _) =>
    s.lookup id = some c ∧ (s.data c).type = none ∧ (s.data c).manifestation = .real
  | _ => False

/-- Whether a request is to take off arcs from a vertex to itself. -/
def Request.Unloops {α : Type} (s : Store) (c : CellId) : Request α → Prop
  | .disconnect anchor _ neighbor =>
    s.lookup anchor = some c ∧ neighbor.all (· == anchor) = true
  | .runExpiration time =>
    ∃ r t, s.schedule.time? (.arc (s.cell c).id r (s.cell c).id) = some t ∧ t ≤ time
  | _ => False

namespace Operation

def Types (s : Store) (c : CellId) : Operation → Prop
  | ask r => r.Types s c
  | _ => False

def Unloops (s : Store) (c : CellId) : Operation → Prop
  | ask r => r.Unloops s c
  | _ => False

end Operation

/-! ## Requests -/

section Requests

variable {α : Type} {agree : Agreement} {G : List Guard} {who : Caller} {s s' : Store}
  {T L : CellId → Prop}

theorem stamped_expireAt (hs : s.Sound agree) (c : CellId) (time : UInt32) :
    Stamped who.now T L s (s.expireAt c time) :=
  stamped_modifyData hs (fun _ => ⟨rfl, rfl, rfl, rfl, rfl⟩) (.inr ⟨rfl, rfl, rfl, rfl, .inl rfl⟩)

theorem stamped_setExpiration {g : Guard} {time : UInt32} (hs : s.Sound agree) :
    Stamped who.now T L s ((setExpiration g time).run s).2 := by
  rw [run_setExpiration]
  split
  · exact (stamped_expireAt hs _ time).trans (stamped_of_cells rfl)
  · exact .refl s

theorem stamped_markExpiring {id : String} {time : UInt32} {r : Except Error Unit}
    (hs : s.Sound agree) (hg : s.Guarded G)
    (hrun : (markExpiring who id time).run s = (r, s')) : Stamped who.now T L s s' := by
  rcases run_markExpiring hg hrun with ⟨_, rfl⟩ | ⟨c, g, locks, held, _, rfl⟩
  · exact .refl s'
  · obtain ⟨hs₁, _⟩ := held.sound hs hg
    have hexpire : Step (fun _ => True) { s with locks }
        (({ s with locks } : Store).expireAt g.item.slot time) :=
      .attributes trivial fun _ => ⟨rfl, rfl, rfl, rfl, rfl⟩
    have hlocks : Stamped who.now T L s { s with locks } := stamped_of_cells rfl
    have hs₂ : Sound agree ((({ s with locks } : Store).expireAt g.item.slot time).scheduleAt
        (.vertex g.item.label) time) :=
      (Step.schedule (W := fun _ => True) _ _).sound (hexpire.sound hs₁)
    have hset : Stamped who.now T L s
        ((({ s with locks } : Store).expireAt g.item.slot time).scheduleAt
          (.vertex g.item.label) time) :=
      (hlocks.trans (stamped_expireAt hs₁ _ time)).trans (stamped_of_cells rfl)
    exact hset.trans (stamped_drop hs₂ g)

/-- A request of a graph in use. -/
theorem stamped_request {r : Request α} (hr : r.isRestore = false) {out : Except Error α}
    (hs : s.Sound agree) (hg : s.Guarded G) (hrun : (r.action who).run s = (out, s')) :
    Stamped who.now (fun c => s.cells.size ≤ c ∨ r.Types s c) (r.Unloops s) s s' := by
  by_cases hplain : r.connectsOrReads = true
  · exact (tolerates_stamped.connectsOrReads (fun r u _ => writes_stamped r u) hplain hs hg trivial
      hrun).2
  cases r with
  | create id type =>
    refine (confined_create (fun c => .inl) (fun c hsome hfound hnone hreal => .inr ?_)
      |>.weaken (fun _ h => h) fun _ _ h => h) s out s' hs trivial rfl hrun |>.2.2.1
    cases type with
    | none => cases hsome
    | some label => exact ⟨hfound, hnone, hreal⟩
  | delete id => exact (run_delete hs hg hrun).stamped hs hg
  | disconnect anchor probe neighbor =>
    exact (run_disconnect hs hg hrun).stamped hs hg fun c hfound hself => ⟨hfound, hself⟩
  | markExpiring id time => exact stamped_markExpiring hs hg hrun
  | runExpiration time =>
    exact stamped_runExpiration hs hg (fun c _ r t htime hle => ⟨r, t, htime, hle⟩) hrun
  | restore snapshot => cases hr
  | _ => exact absurd rfl hplain

end Requests

variable {agree : Agreement} {who : Caller} {s : Session}

theorem Operation.stamped (hs : s.Sound agree) (op : Operation) (hlive : op.Live) :
    Stamped who.now (fun c => s.store.cells.size ≤ c ∨ op.Types s.store c) (op.Unloops s.store)
      s.store (op.after who s).store := by
  refine (tolerates_stamped.after hs.store trivial op ?_ ?_).2
  · rintro α r rfl
    exact ⟨trivial, stamped_request hlive hs.store hs.guarded rfl⟩
  · exact fun name g time _ _ => ⟨trivial, stamped_setExpiration hs.store⟩

/-! ## What a vertex without a stamp keeps -/

namespace Store

variable {agree' : Agreement} {W : CellId → Prop} {now : UInt32} {T L : CellId → Prop}
  {typed looped : Prop} {s s' : Store} {c : CellId}

theorem lt_of_arcIn? {p : Place} {a : StoredArc} (h : s.arcIn? p = some a) :
    p.cell < s.cells.size := by
  refine Nat.lt_of_not_le fun hle => ?_
  rw [arcIn?, data_of_size_le hle] at h
  cases h

/-- An arc around a vertex has its place around it. -/
theorem around_of_touches (hs : s.Sound agree) (hc : s.Live c) {p : PlacedArc}
    (ht : p.touches (s.keyOf c)) {i : CellId} (hi : s.Live i) (hk : s.keyOf i = p.initial) :
    s.Around c ⟨i, p.terminal, p.arc.relationship, p.arc.kind⟩ :=
  ht.imp_left fun e => hs.placed.eq_of_key hi hc (hk.trans e)

/-- A vertex without a stamp has got no arcs. -/
theorem Unstamped.arcs_subset (h : Unstamped typed looped s s' c) (hst : Stamped now T L s s')
    (hs : s.Sound agree) (hs' : s'.Sound agree') (hc : s.Live c) (hc' : s'.Live c) :
    (s'.aspect c).arcs ⊆ (s.aspect c).arcs := by
  rintro p ⟨hp, ht⟩
  obtain ⟨i, hi, hk, hfound⟩ := (mem_arcs_iff_arcIn? hs').1 hp
  have hkey : s'.keyOf c = s.keyOf c := hst.cells.key c hc.1
  have haround : s.Around c ⟨i, p.terminal, p.arc.relationship, p.arc.kind⟩ := by
    rw [Around, ← hkey]
    exact around_of_touches hs' hc' ht hi hk
  have hsame := (h.arcs _ haround).resolve_right fun hlost => by
    exact Option.some_ne_none _ (hfound.symm.trans hlost.2.2)
  have hi₀ := hst.live i (lt_of_arcIn? (hsame.symm.trans hfound)) hi
  refine ⟨(mem_arcs_iff_arcIn? hs).2 ⟨i, hi₀, ?_, hsame.symm.trans hfound⟩, hkey ▸ ht⟩
  exact (hst.cells.key i hi₀.1).symm.trans hk

/-- A vertex without a stamp has lost no arcs but those to itself. -/
theorem Unstamped.lost (h : Unstamped typed looped s s' c) (st : Steps W s s')
    (hst : Stamped now T L s s') (hs : s.Sound agree) (hs' : s'.Sound agree') (hc : s.Live c)
    {p : PlacedArc} (hp : p ∈ (s.aspect c).arcs) (hp' : p ∉ (s'.aspect c).arcs) :
    looped ∧ p.initial = s.keyOf c ∧ p.terminal = s.keyOf c := by
  obtain ⟨hmem, ht⟩ := hp
  obtain ⟨i, hi, hk, hfound⟩ := (mem_arcs_iff_arcIn? hs).1 hmem
  rcases h.arcs _ (around_of_touches hs hc ht hi hk) with hsame | ⟨hlooped, ⟨rfl, htoward⟩, _⟩
  · refine absurd ⟨(mem_arcs_iff_arcIn? hs').2 ⟨i, ?_, ?_, hsame.trans hfound⟩, ?_⟩ hp'
    · refine (Steps.out_eq_empty st hs hi).resolve_right fun hempty => ?_
      rw [hfound, arcIn?, hempty] at hsame
      cases hsame
    · exact (hst.cells.key i hi.1).trans hk
    · have hkey : s'.keyOf c = s.keyOf c := hst.cells.key c hc.1
      rwa [hkey]
  · exact ⟨hlooped, hk.symm, htoward⟩

theorem mem_inward_iff (hs : s.Sound agree) (hc : s.Live c) {e : VertexKey × StoredArc} :
    e ∈ (s.aspect c).inward ↔
      (s.data c).inbound.get? e.1 e.2.relationship e.2.kind = some e.2 :=
  ArcIndex.mem_entries_iff.trans (ArcIndex.mem_arcsTo_iff (hs.paired.valid c hc).2 _ _)

/-- A vertex without a stamp is as it was, but for a type it may have got, or for arcs to
itself that it may have lost. -/
theorem Unstamped.aspect (h : Unstamped typed looped s s' c) (st : Steps W s s')
    (hst : Stamped now T L s s') (hs : s.Sound agree) (hs' : s'.Sound agree') (hc : s.Live c)
    (hc' : s'.Live c) (hnot : ¬ (typed ∧ looped)) :
    s'.aspect c = s.aspect c ∨
      typed ∧ s'.aspect c = { s.aspect c with type := (s'.data c).type } ∨
      looped ∧ (s.aspect c).Unlooped (s.keyOf c) (s'.aspect c) := by
  have harcs := h.arcs_subset hst hs hs' hc hc'
  have hinward : (s'.aspect c).inward ⊆ (s.aspect c).inward := by
    intro e he
    rw [mem_inward_iff hs' hc'] at he
    rw [mem_inward_iff hs hc]
    rcases h.inbound e.1 e.2.relationship e.2.kind with hsame | ⟨_, _, hnone⟩
    · exact hsame.symm.trans he
    · rw [he] at hnone
      cases hnone
  have hlost : ∀ e ∈ (s.aspect c).inward, e ∉ (s'.aspect c).inward →
      looped ∧ e.1 = s.keyOf c := by
    intro e he he'
    rw [mem_inward_iff hs hc] at he
    rw [mem_inward_iff hs' hc'] at he'
    rcases h.inbound e.1 e.2.relationship e.2.kind with hsame | ⟨hlooped, hn, _⟩
    · exact absurd (hsame.trans he) he'
    · exact ⟨hlooped, hn⟩
  by_cases hlooped : looped
  · have hkept := h.type.resolve_right fun htyped => hnot ⟨htyped, hlooped⟩
    exact .inr (.inr ⟨hlooped, hkept, h.manifestation, h.properties, h.vector, harcs,
      fun p hp hp' => (h.lost st hst hs hs' hc hp hp').2, hinward,
      fun e he he' => (hlost e he he').2⟩)
  · have hsameArcs : (s'.aspect c).arcs = (s.aspect c).arcs :=
      harcs.antisymm fun p hp => Classical.byContradiction fun hp' =>
        hlooped (h.lost st hst hs hs' hc hp hp').1
    have hsameInward : (s'.aspect c).inward = (s.aspect c).inward :=
      hinward.antisymm fun e he => Classical.byContradiction fun he' =>
        hlooped (hlost e he he').1
    have hsame : s'.aspect c = { s.aspect c with type := (s'.data c).type } :=
      Aspect.ext rfl h.manifestation h.properties h.vector hsameArcs hsameInward
        (h.forwardOnlyIn.resolve_right hlooped)
    rcases h.type with htype | htyped
    · refine .inl (hsame.trans ?_)
      rw [htype]
      rfl
    · exact .inr (.inl ⟨htyped, hsame⟩)

end Store

/-! ## Operations -/

namespace Operation

variable {c : CellId}

theorem not_types_unloops {op : Operation} {s : Store} : ¬ (op.Types s c ∧ op.Unloops s c) := by
  rintro ⟨htypes, hunloops⟩
  cases op with
  | ask r =>
    cases r with
    | create => exact hunloops
    | _ => exact htypes
  | _ => exact htypes

end Operation

/-- An operation of a graph in use stamps every vertex that it changes and that stays, except
that a real vertex may get its first type without a stamp, and that a vertex may lose arcs to
itself without one. -/
theorem stamped_after {ok : Operation → Prop} (h : Reach ok s) (who : Caller) (op : Operation)
    (hlive : op.Live) {c : CellId} (hc : s.store.Live c) (hc' : (op.after who s).store.Live c) :
    ((op.after who s).store.data c).modified = who.now ∨
      ((op.after who s).store.data c).modified = (s.store.data c).modified ∧
        ((op.after who s).store.aspect c = s.store.aspect c ∨
          op.Types s.store c ∧ (op.after who s).store.aspect c =
            { s.store.aspect c with type := ((op.after who s).store.data c).type } ∨
          op.Unloops s.store c ∧
            (s.store.aspect c).Unlooped (s.store.keyOf c) ((op.after who s).store.aspect c)) := by
  have hs := h.sound
  obtain ⟨st, hs'⟩ : Steps _ s.store (op.after who s).store ∧ (op.after who s).Sound .slots :=
    op.steps_after hs (covers_open _ _) hlive
  have hstamped : Stamped who.now (fun c => s.store.cells.size ≤ c ∨ op.Types s.store c)
      (op.Unloops s.store) s.store (op.after who s).store := op.stamped hs hlive
  rcases hstamped.stamp c hc hc' with hnow | hsame
  · exact .inl hnow
  · refine .inr ⟨hsame.modified, ?_⟩
    have hT : s.store.cells.size ≤ c ∨ op.Types s.store c → op.Types s.store c :=
      fun hT => hT.resolve_left (Nat.not_le_of_lt hc.1)
    have hnot : ¬ ((s.store.cells.size ≤ c ∨ op.Types s.store c) ∧ op.Unloops s.store c) :=
      fun hboth => Operation.not_types_unloops ⟨hT hboth.1, hboth.2⟩
    exact (hsame.aspect st hstamped hs.store hs'.store hc hc' hnot).imp_right
      (.imp_left (.imp_left hT))

/-- A graph in which a vertex is connected to itself. -/
def selfArced : Session :=
  (Operation.ask (.connect
    { initial := "a", arc := { relationship := "r" }, terminals := .one "a" })).after
      ⟨⟨"m"⟩, 1000⟩ (.new {} .new)

/-- Takes off all arcs around that vertex. -/
def bareSelf : Operation := .ask (.disconnect "a" .any none)

theorem reach_selfArced : Reach Operation.Live selfArced := (Reach.start {} .new).step _ _ rfl

theorem live_selfArced :
    selfArced.store.Live 0 ∧ (bareSelf.after ⟨⟨"m"⟩, 2000⟩ selfArced).store.Live 0 := by
  refine ⟨⟨?_, ?_⟩, ?_, ?_⟩ <;> decide +kernel

theorem modified_bareSelf :
    ((bareSelf.after ⟨⟨"m"⟩, 2000⟩ selfArced).store.data 0).modified = 1000 := by
  decide +kernel

/-- The vertex loses its arc. -/
theorem aspect_bareSelf :
    (bareSelf.after ⟨⟨"m"⟩, 2000⟩ selfArced).store.aspect 0 ≠ selfArced.store.aspect 0 := by
  have hbefore : (⟨.of "a", .of "a", 0, .static, .empty, false⟩ : PlacedArc) ∈
      selfArced.store.arcs := by
    decide +kernel
  have hafter : (bareSelf.after ⟨⟨"m"⟩, 2000⟩ selfArced).store.arcs = [] := by
    decide +kernel
  have hkey : .of "a" = selfArced.store.keyOf 0 := by
    decide +kernel
  intro hsame
  have hm : (⟨.of "a", .of "a", 0, .static, .empty, false⟩ : PlacedArc) ∈
      (selfArced.store.aspect 0).arcs := ⟨hbefore, .inl hkey⟩
  rw [← hsame] at hm
  have hnone := hm.1
  rw [hafter] at hnone
  exact List.not_mem_nil hnone

/-- A disconnect that takes off an arc from a vertex to itself leaves all else as it was. -/
theorem stamped_after_bareSelf :
    selfArced.store.Live 0 ∧ (bareSelf.after ⟨⟨"m"⟩, 2000⟩ selfArced).store.Live 0 ∧
      (selfArced.store.aspect 0).Unlooped (selfArced.store.keyOf 0)
        ((bareSelf.after ⟨⟨"m"⟩, 2000⟩ selfArced).store.aspect 0) := by
  obtain ⟨hc, hc'⟩ := live_selfArced
  refine ⟨hc, hc', ?_⟩
  rcases stamped_after reach_selfArced ⟨⟨"m"⟩, 2000⟩ bareSelf rfl hc hc' with hnow | ⟨_, hrest⟩
  · rw [modified_bareSelf] at hnow
    exact absurd hnow (by decide)
  · rcases hrest with hsame | ⟨htypes, _⟩ | ⟨_, hunlooped⟩
    · exact absurd hsame aspect_bareSelf
    · exact htypes.elim
    · exact hunlooped

/-- A vertex may change without a stamp. -/
theorem not_stamped_bareSelf :
    ¬ ∀ s : Session, Reach Operation.Live s → ∀ (who : Caller) (op : Operation), op.Live →
      ∀ c, s.store.Live c → (op.after who s).store.Live c →
        (op.after who s).store.aspect c ≠ s.store.aspect c →
          ((op.after who s).store.data c).modified = who.now := by
  intro hall
  have hnow := hall selfArced reach_selfArced ⟨⟨"m"⟩, 2000⟩ bareSelf rfl 0 live_selfArced.1
    live_selfArced.2 aspect_bareSelf
  rw [modified_bareSelf] at hnow
  exact absurd hnow (by decide)

end Arcbase
