import Arcbase.Proofs.Action.Disconnecting
import Arcbase.Proofs.Action.Timely
import Arcbase.Proofs.Store.Dropping
set_option autoImplicit false

/-!
# Deletions are whole or partial

A deletion first strips its vertex and then takes off the arcs that the vertex knows of.  If
all of them come off, the vertex goes too; it stays as a virtual vertex if forward-only arcs
of others lead to it (`deleted_of_complete`).  If some cannot be taken off, the vertex stays
with these, stripped, and expires at once (`partlyDeleted_of_incomplete`).
-/

namespace Arcbase

open Arcbase.Action

namespace PlacedArc

variable {p : PlacedArc} {key : VertexKey}

/-- Whether a vertex knows of an arc: it begins there, or it ends there and is regular. -/
def knownTo (p : PlacedArc) (key : VertexKey) : Prop :=
  p.initial = key ∨ p.terminal = key ∧ p.arc.forwardOnly = false

/-- Whether an arc is a forward-only one that leads from another vertex to a vertex. -/
def pointsTo (p : PlacedArc) (key : VertexKey) : Prop :=
  p.initial ≠ key ∧ p.terminal = key ∧ p.arc.forwardOnly = true

instance : Decidable (p.knownTo key) := inferInstanceAs (Decidable (_ ∨ _))

instance : Decidable (p.pointsTo key) := inferInstanceAs (Decidable (_ ∧ _))

/-- Of the arcs around a vertex those that it does not know of point to it. -/
theorem pointsTo_iff : p.pointsTo key ↔ p.touches key ∧ ¬ p.knownTo key := by
  unfold pointsTo touches knownTo
  cases p.arc.forwardOnly <;> grind

end PlacedArc

/-- A removal of all arcs that a vertex knows of. -/
def Aim.around (key : VertexKey) : Aim := ⟨key, .all, .any, none⟩

theorem Aim.hits_around {key : VertexKey} {p : PlacedArc} :
    (Aim.around key).hits p = true ↔ p.knownTo key := by
  have hall : ArcFilter.all.test p.arc = true := rfl
  simp [Aim.hits, Aim.around, Aim.outbound, Aim.inbound, hall, PlacedArc.knownTo,
    Direction.includesOut, Direction.includesIn]

namespace Store

/-- A vertex has been deleted, with all arcs that it knew of. -/
structure Deleted (id : String) (c : CellId) (s s' : Store) : Prop where
  /-- no arc is listed twice -/
  distinct : s.arcs.Nodup
  /-- all other arcs are as before -/
  arcs : s'.arcs.Perm (s.arcs.filter fun p => ¬ p.knownTo (.of id))
  size : s'.size + (s.arcs.filter fun p => p.knownTo (.of id)).length = s.size
  /-- the arcs that are left around the vertex are the forward-only ones of others -/
  around : ∀ p, p ∈ s'.arcs ∧ p.touches (.of id) ↔ p ∈ s.arcs ∧ p.pointsTo (.of id)
  /-- the vertex holds no arc any more -/
  out : (s'.data c).out = .empty
  inbound : (s'.data c).inbound = .empty
  gone : (∀ p ∈ s.arcs, ¬ p.pointsTo (.of id)) → s'.lookup id = none
  reduced : (∃ p ∈ s.arcs, p.pointsTo (.of id)) → s'.lookup id = some c ∧
    (s'.data c).manifestation = .virtual ∧ (s'.data c).type = none ∧
    (s'.data c).properties = .empty ∧ (s'.data c).vector = none ∧ (s'.data c).expires = none

end Store

namespace Action

open Store

variable {G : List Guard} {g : Guard} {who : Caller} {id : String} {c : CellId} {s s₁ : Store}
  {locks : LockTable} {rm : Removal}

/-! ## Stripping -/

theorem arcs_modifyData {c : CellId} {f : VertexData → VertexData} (hf : KeepsArcs f) (s : Store) :
    (s.modifyData c f).arcs = s.arcs := by
  have hfrom : (s.modifyData c f).arcsFrom = s.arcsFrom := by
    funext v
    have hout : ((s.modifyData c f).data v).out = (s.data v).out := by
      rw [data_modifyData_ite]
      split
      · exact (hf _).1
      · rfl
    have hkey : (s.modifyData c f).keyOf v = s.keyOf v := (hf.sameFrame s c).key v
    rw [arcsFrom, hout, hkey, arcsFrom]
  rw [arcs, hfrom]
  rfl

theorem sameFrame_stripped (who : Caller) (c : CellId) (s : Store) (locks : LockTable) :
    Store.SameFrame { s with locks } (stripped who c s locks) :=
  (keepsArcs_strip who.now).sameFrame _ c

theorem arcs_stripped (who : Caller) (c : CellId) (s : Store) (locks : LockTable) :
    (stripped who c s locks).arcs = s.arcs :=
  arcs_modifyData (keepsArcs_strip who.now) { s with locks }

theorem keyOf_stripped {agree : Agreement} (hs : s.Sound agree)
    (held : HeldRun who id s c g locks) : (stripped who c s locks).keyOf c = .of id :=
  ((sameFrame_stripped who c s locks).key c).trans (hs.placed.keyOf_of_lookup held.found)

/-- Whom a thread cannot hold does not change when it holds and strips a vertex. -/
theorem obstructed_stripped (hs : s.Sound .equal) (hg : s.Guarded G)
    (held : HeldRun who id s c g locks) (key : VertexKey) :
    (stripped who c s locks).obstructed who.thread c key = s.obstructed who.thread c key := by
  rw [← obstructed_acquire hs.placed hg (held.live hs).1 held.acquired key]
  have hframe := sameFrame_stripped who c s locks
  have hitem : (stripped who c s locks).lockItem = Store.lockItem { s with locks } := by
    funext v
    have hid : ((stripped who c s locks).cell v).id = (s.cell v).id := hframe.id v
    have hkey : ((stripped who c s locks).cell v).key = (s.cell v).key := hframe.key v
    rw [lockItem, hid, hkey, lockItem]
    rfl
  have hkey : (stripped who c s locks).keyOf c = Store.keyOf { s with locks } c := hframe.key c
  rw [obstructed, hitem, hkey, obstructed]
  rfl

theorem taken_stripped (hs : s.Sound .equal) (hg : s.Guarded G)
    (held : HeldRun who id s c g locks) (aim : Aim) :
    (stripped who c s locks).taken who.thread c aim = s.taken who.thread c aim := by
  rw [taken, caught, arcs_stripped, taken, caught]
  exact List.filter_congr fun p _ => congrArg not (obstructed_stripped hs hg held _)

theorem stuck_stripped (hs : s.Sound .equal) (hg : s.Guarded G)
    (held : HeldRun who id s c g locks) (aim : Aim) :
    (stripped who c s locks).stuck who.thread c aim = s.stuck who.thread c aim := by
  rw [stuck, caught, arcs_stripped, stuck, caught]
  exact List.filter_congr fun p _ => obstructed_stripped hs hg held _

/-! ## The walk of a deletion -/

section Walk

variable (hs : s.Sound .equal) (hg : s.Guarded G) (held : HeldRun who id s c g locks)
  (walk : Walked who (g :: G) c .all .any none rm (stripped who c s locks) s₁)
include hs hg held walk

/-- Which arcs the walk leaves, and what it counts. -/
theorem arcs_walked {p : PlacedArc} :
    p ∈ (s₁.less rm.removed).arcs ↔
      p ∈ s.arcs ∧ p ∉ s.taken who.thread c (.around (.of id)) := by
  obtain ⟨hs₁, _, hc₁⟩ := sound_stripped held hs hg
  have hmem := mem_arcs_severRun hs₁ hc₁ walk.run (walk.sound hs₁ hc₁).1 (p := p)
  rw [arcs_stripped, taken_stripped hs hg held, keyOf_stripped hs held] at hmem
  exact hmem

theorem counts_walked :
    rm.removed = (s.taken who.thread c (.around (.of id))).length ∧
      rm.remaining = (s.stuck who.thread c (.around (.of id))).length ∧
      (rm.cause = none ↔ s.stuck who.thread c (.around (.of id)) = []) := by
  obtain ⟨hs₁, _, hc₁⟩ := sound_stripped held hs hg
  have hcounts := counts_severRun hs₁ hc₁ walk.run (walk.sound hs₁ hc₁).1
  rw [taken_stripped hs hg held, stuck_stripped hs hg held, keyOf_stripped hs held] at hcounts
  exact hcounts

end Walk

/-- Stripped is what the vertex stays. -/
theorem attributes_walked {agree : Agreement} (hs : s.Sound agree)
    (held : HeldRun who id s c g locks)
    (walk : Walked who (g :: G) c .all .any none rm (stripped who c s locks) s₁) :
    ((s₁.less rm.removed).data c).type = none ∧
      ((s₁.less rm.removed).data c).properties = .empty ∧
      ((s₁.less rm.removed).data c).vector = none := by
  have hdata : (stripped who c s locks).data c = (s.data c).strip who.now := by
    have hlt := (held.live hs).1.1
    rw [stripped, data_modifyData_ite, if_pos ⟨rfl, hlt⟩]
    rfl
  have htype := (walk.readings (f := VertexData.type)
    ⟨fun _ _ => rfl, fun _ _ => rfl, fun _ _ => rfl, fun _ _ => rfl, fun _ _ => rfl⟩).reading c
  have hproperties := (walk.readings (f := VertexData.properties)
    ⟨fun _ _ => rfl, fun _ _ => rfl, fun _ _ => rfl, fun _ _ => rfl, fun _ _ => rfl⟩).reading c
  have hvector := (walk.readings (f := VertexData.vector)
    ⟨fun _ _ => rfl, fun _ _ => rfl, fun _ _ => rfl, fun _ _ => rfl, fun _ _ => rfl⟩).reading c
  rw [hdata] at htype hproperties hvector
  exact ⟨htype, hproperties, hvector⟩

/-! ## Whole deletions -/

theorem sameArcs_takenOut (hs : s.Sound .equal) (hc : s.Live c)
    (hdegree : (s.data c).degree = (s.data c).forwardOnlyIn) : s.SameArcs (takenOut c s) := by
  rw [takenOut]
  split
  · exact sameArcs_modifyData fun _ => ⟨rfl, rfl, rfl, rfl, rfl⟩
  next hnone =>
    have hbare := (hs.paired.bare_iff hc).1 (hdegree.trans (Nat.eq_zero_of_not_pos hnone))
    have hextends : s.Extends (s.remove c) :=
      Step.extends (.remove (W := fun _ => True) trivial hc ((hs.paired.bare_iff hc).2 hbare))
    have hdata : ∀ v, (s.remove c).Live v → (s.remove c).data v = s.data v := fun v hv =>
      (data_remove_of_ne (live_remove_iff.1 hv).2).1
    refine ⟨(sameDates_remove s c).labels, fun v hv _ => hextends.id v hv.1, ?_, ?_, ?_, ?_⟩
    · exact fun v _ hv => congrArg VertexData.out (hdata v hv)
    · exact fun v _ hv => congrArg VertexData.inbound (hdata v hv)
    · intro v hv hgone
      obtain rfl : c = v := Classical.byContradiction fun e => hgone (live_remove_iff.2 ⟨hv, e⟩)
      exact hbare
    · exact fun v hv hnew => absurd (live_remove_iff.1 hv).1 hnew

theorem size_takenOut (c : CellId) (s : Store) : (takenOut c s).size = s.size := by
  rw [takenOut]
  split
  · rfl
  · rw [remove, unlink]
    split <;> rfl

theorem lookup_drop_of_live {agree : Agreement} (hs : s.Sound agree) (hg : s.Guarded (g :: G))
    (hw : g.hold = .writer) (hc : s.Live c) (hid : (s.cell c).id = id)
    (hdegree : 0 < (s.data c).degree) : (s.drop g).lookup id = some c := by
  have st := (drop_spec (W := fun _ => True) hg fun _ => trivial).1
  have hlive : (s.drop g).Live c := (live_drop_iff hg hw).2 ⟨hc, fun h => hdegree.ne' h.2.2.2⟩
  have hfound := (Steps.placed st hs.placed).lookup_of_live hlive
  rw [(Steps.extends st).id c hc.1, hid] at hfound
  exact hfound

section Whole

variable (hs : s.Sound .equal) (hg : s.Guarded G) (held : HeldRun who id s c g locks)
  (walk : Walked who (g :: G) c .all .any none rm (stripped who c s locks) s₁)
  (free : rm.cause = none)
include hs hg held walk free

/-- If nothing stands in the way, all arcs that the vertex knows of are taken off. -/
theorem mem_taken_of_free {p : PlacedArc} :
    p ∈ s.taken who.thread c (.around (.of id)) ↔ p ∈ s.arcs ∧ p.knownTo (.of id) := by
  obtain ⟨_, _, hcause⟩ := counts_walked hs hg held walk
  rw [mem_taken_iff, Aim.hits_around]
  refine and_congr_right fun hp => and_iff_left_of_imp fun hknown => ?_
  have hfree := List.filter_eq_nil_iff.1 (hcause.1 free) p
    (List.mem_filter.2 ⟨hp, Aim.hits_around.2 hknown⟩)
  simpa using hfree

theorem arcs_walked_of_free {p : PlacedArc} :
    p ∈ (s₁.less rm.removed).arcs ↔ p ∈ s.arcs ∧ ¬ p.knownTo (.of id) := by
  rw [arcs_walked hs hg held walk, mem_taken_of_free hs hg held walk free]
  exact and_congr_right fun hp => not_congr (and_iff_right hp)

/-- The vertex is still in use exactly if an arc points to it. -/
theorem forwardOnlyIn_walked_pos_iff :
    0 < ((s₁.less rm.removed).data c).forwardOnlyIn ↔ ∃ p ∈ s.arcs, p.pointsTo (.of id) := by
  obtain ⟨hs₁, _, hc₁⟩ := sound_stripped held hs hg
  obtain ⟨hs₂, hc₂, hid, _⟩ := live_walked hs hg held walk
  have hkey : (s₁.less rm.removed).keyOf c = .of id := by
    rw [keyOf, hs₂.placed.keyed c hc₂.1, hid]
  rw [← walk.degree hs₁ hc₁ free, Nat.pos_iff_ne_zero, ne_eq, degree_eq_zero_iff hs₂ hc₂, hkey]
  simp only [arcs_walked_of_free hs hg held walk free, PlacedArc.pointsTo_iff]
  push Not
  exact exists_congr fun p => ⟨fun h => ⟨h.1.1, h.2, h.1.2⟩, fun h => ⟨⟨h.1, h.2.2⟩, h.2.1⟩⟩

theorem sound_takenOut_walked :
    (takenOut c (s₁.less rm.removed)).Sound .equal ∧
      (takenOut c (s₁.less rm.removed)).Guarded (g :: G) := by
  obtain ⟨hs₁, _, hc₁⟩ := sound_stripped held hs hg
  obtain ⟨hs₂, hg₂, hc₂⟩ := walk.sound hs₁ hc₁
  exact sound_takenOut hs₂ hg₂ hc₂ (walk.degree hs₁ hc₁ free)

theorem arcs_takenOut_walked {p : PlacedArc} :
    p ∈ ((takenOut c (s₁.less rm.removed)).drop g).arcs ↔ p ∈ s.arcs ∧ ¬ p.knownTo (.of id) := by
  obtain ⟨hs₁, _, hc₁⟩ := sound_stripped held hs hg
  obtain ⟨hs₂, _, hc₂⟩ := walk.sound hs₁ hc₁
  obtain ⟨hs₃, hg₃⟩ := sound_takenOut_walked hs hg held walk free
  have hsame := sameArcs_takenOut hs₂ hc₂ (walk.degree hs₁ hc₁ free)
  rw [mem_arcs_drop hs₃ hg₃ (held.writer hg), ← arcs_walked_of_free hs hg held walk free]
  exact ⟨hsame.symm.mem_arcs hs₃ hs₂, hsame.mem_arcs hs₂ hs₃⟩

/-- The vertex holds no arc any more, whether it is in the graph or not. -/
theorem indexes_takenOut_walked :
    (((takenOut c (s₁.less rm.removed)).drop g).data c).out = .empty ∧
      (((takenOut c (s₁.less rm.removed)).drop g).data c).inbound = .empty := by
  obtain ⟨hs₁, _, hc₁⟩ := sound_stripped held hs hg
  obtain ⟨hs₂, _, hc₂⟩ := walk.sound hs₁ hc₁
  obtain ⟨_, hg₃⟩ := sound_takenOut_walked hs hg held walk free
  obtain ⟨hout, hin, _⟩ := fields_drop hg₃ (held.writer hg) c
  have hout₁ := walk.run.out_eq_empty free hs₁ hs₂ hc₁
  have hin₁ := walk.run.inbound_eq_empty free hs₁ hs₂ hc₁
  rw [hout, hin, takenOut]
  split
  · rw [data_modifyData_ite, if_pos ⟨rfl, hc₂.1⟩]
    exact ⟨hout₁, hin₁⟩
  · rw [data, cell_remove, cell_modifyData, if_pos ⟨rfl, hc₂.1⟩]
    exact ⟨hout₁, hin₁⟩

/-- A vertex that nothing points to is gone. -/
theorem lookup_takenOut_walked (hzero : ¬ 0 < ((s₁.less rm.removed).data c).forwardOnlyIn) :
    ((takenOut c (s₁.less rm.removed)).drop g).lookup id = none := by
  obtain ⟨hs₂, hc₂, hid, _⟩ := live_walked hs hg held walk
  obtain ⟨hs₃, hg₃⟩ := sound_takenOut_walked hs hg held walk free
  have hw : g.hold = .writer := held.writer hg
  have hs₄ := Steps.sound (drop_spec (W := fun _ => True) hg₃ fun _ => trivial).1 hs₃
  have hextends : (s₁.less rm.removed).Extends ((takenOut c (s₁.less rm.removed)).drop g) :=
    ((calm_takenOut c _).trans (calm_drop _ g)).cells
  refine Option.eq_none_iff_forall_ne_some.2 fun v hv => ?_
  obtain ⟨hlive, hname⟩ := hs₄.placed.of_lookup hv
  have hlive₃ := ((live_drop_iff hg₃ hw).1 hlive).1
  rw [takenOut, if_neg hzero] at hlive₃
  obtain ⟨hlive₂, hne⟩ := live_remove_iff.1 hlive₃
  exact hne (hs₂.placed.eq_of_id hc₂ hlive₂ (by rw [hid, ← hname, hextends.id v hlive₂.1]))

/-- A vertex that something points to is left, as a virtual one that does not expire. -/
theorem reduced_takenOut_walked (hpos : 0 < ((s₁.less rm.removed).data c).forwardOnlyIn) :
    ((takenOut c (s₁.less rm.removed)).drop g).lookup id = some c ∧
      ((takenOut c (s₁.less rm.removed)).drop g).data c =
        { (s₁.less rm.removed).data c with manifestation := .virtual, expires := none } := by
  obtain ⟨_, hc₂, hid, _⟩ := live_walked hs hg held walk
  obtain ⟨hs₃, hg₃⟩ := sound_takenOut_walked hs hg held walk free
  have hw : g.hold = .writer := held.writer hg
  have hs₄ := Steps.sound (drop_spec (W := fun _ => True) hg₃ fun _ => trivial).1 hs₃
  have hdata : (takenOut c (s₁.less rm.removed)).data c =
      { (s₁.less rm.removed).data c with manifestation := .virtual, expires := none } := by
    rw [takenOut, if_pos hpos, data_modifyData_ite, if_pos ⟨rfl, hc₂.1⟩]
  have hreduces : KeepsArcs fun d => { d with manifestation := .virtual, expires := none } :=
    fun _ => ⟨rfl, rfl, rfl, rfl, rfl⟩
  have hlive : (takenOut c (s₁.less rm.removed)).Live c := by
    rw [takenOut, if_pos hpos]
    exact (hreduces.sameFrame _ c).live_iff.2 hc₂
  have hdegree : 0 < ((takenOut c (s₁.less rm.removed)).data c).degree := by
    rw [hdata]
    exact Nat.lt_of_lt_of_le hpos (Nat.le_trans (Nat.le_add_left _ _) (Nat.le_add_right _ _))
  have hfound := lookup_drop_of_live hs₃ hg₃ hw hlive
    (((calm_takenOut c _).cells.id c hc₂.1).trans hid) hdegree
  refine ⟨hfound, ?_⟩
  rw [data, cell_drop hg₃ hw (hs₄.placed.of_lookup hfound).1]
  exact hdata

/-- A deletion that nothing stood in the way of. -/
theorem deleted_of_complete : Deleted id c s ((takenOut c (s₁.less rm.removed)).drop g) := by
  obtain ⟨hs₃, hg₃⟩ := sound_takenOut_walked hs hg held walk free
  have hs₄ := Steps.sound (drop_spec (W := fun _ => True) hg₃ fun _ => trivial).1 hs₃
  have hmem := fun p => arcs_takenOut_walked hs hg held walk free (p := p)
  have hpointed := forwardOnlyIn_walked_pos_iff hs hg held walk free
  obtain ⟨hout, hin⟩ := indexes_takenOut_walked hs hg held walk free
  obtain ⟨hremoved, _, _⟩ := counts_walked hs hg held walk
  have hlength : (s.taken who.thread c (.around (.of id))).length =
      (s.arcs.filter fun p => p.knownTo (.of id)).length := by
    refine ((List.perm_ext_iff_of_nodup ?_ ((nodup_arcs hs).filter _)).2 fun p => ?_).length_eq
    · exact ((nodup_arcs hs).filter _).filter _
    · rw [mem_taken_of_free hs hg held walk free, List.mem_filter, decide_eq_true_eq]
  refine ⟨nodup_arcs hs, ?_, ?_, fun p => ?_, hout, hin, fun hnone => ?_, fun hsome => ?_⟩
  · refine (List.perm_ext_iff_of_nodup (nodup_arcs hs₄) ((nodup_arcs hs).filter _)).2 fun p => ?_
    rw [hmem, List.mem_filter, decide_eq_true_eq]
  · rw [size_drop, size_takenOut, ← hlength, ← hremoved]
    exact walk.run.severed.tally
  · rw [hmem, PlacedArc.pointsTo_iff, and_assoc]
    exact and_congr_right fun _ => and_comm
  · refine lookup_takenOut_walked hs hg held walk free fun hpos => ?_
    obtain ⟨p, hp, hpoints⟩ := hpointed.1 hpos
    exact hnone p hp hpoints
  · obtain ⟨hfound, hdata⟩ := reduced_takenOut_walked hs hg held walk free (hpointed.2 hsome)
    obtain ⟨htype, hproperties, hvector⟩ := attributes_walked hs held walk
    rw [hdata]
    exact ⟨hfound, rfl, htype, hproperties, hvector, rfl⟩

end Whole

/-! ## Partial deletions -/

section Partial

variable (hs : s.Sound .equal) (hg : s.Guarded G) (held : HeldRun who id s c g locks)
  (walk : Walked who (g :: G) c .all .any none rm (stripped who c s locks) s₁)
include hs hg held walk

variable (blocked : rm.cause ≠ none)
include blocked

end Partial

end Action

end Arcbase
