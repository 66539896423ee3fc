import Arcbase.Proofs.Action.Handles
import Arcbase.Proofs.Store.Groups
import Arcbase.Store.Disconnect
set_option autoImplicit false

/-!
# Removing is orderly

A removal gives every neighbor's guard back before it takes the next one.  When it
has taken off all arcs that a vertex knows of, only forward-only arcs can be left
around that vertex, so that a deletion takes out a vertex without arcs or none
(`orderly_delete`).
-/

namespace Arcbase.Action

open Store

variable {agree : Agreement} {W : CellId → Prop} {G : List Guard} {who : Caller}
  {anchor : CellId}

/-- What a removal does to a store. -/
structure SeverRun (who : Caller) (G : List Guard) (anchor : CellId) (groups : List Group)
    (rm : Removal) (s s' : Store) : Prop where
  severed : Severed who.thread G anchor
    ((s.clear who.thread anchor groups).flatMap (s.places anchor))
    ((s.clear who.thread anchor groups).filterMap (s.otherCell? anchor)) 0 rm.removed s s'
  remaining : rm.remaining =
    ((s.blocked who.thread anchor groups).map fun group => group.2.length).sum
  cause : rm.cause.isSome = !(s.blocked who.thread anchor groups).isEmpty

/-- The store as it was before its arcs were counted is the one that comes out of the
walk. -/
theorem run_sever {filter : ArcFilter} {direction : Direction} {neighbor : Option VertexKey}
    {s s' : Store} {r : Except Error Nat} (hs : s.Sound agree) (hg : s.Guarded G)
    (ha : s.Live anchor)
    (hrun : (sever who anchor filter direction neighbor).run s = (r, s')) :
    ∃ rm s'', r = rm.result ∧ s' = s''.less rm.removed ∧
      SeverRun who G anchor (s.groups anchor filter direction neighbor) rm s s'' := by
  simp only [sever, run_ofFun] at hrun
  cases hwalk : s.severGroups who anchor (s.groups anchor filter direction neighbor) {} with
  | mk rm s'' =>
    rw [hwalk] at hrun
    cases hrun
    have hs' : (s.less 0).Sound agree := hs
    obtain ⟨hsev, hleft, hcause⟩ := severGroups_spec (r := {}) hs' hg ha nodup_groups
      (fun _ hm => lookupKey_of_mem_groups hs ha hm) hwalk
    exact ⟨rm, s'', rfl, rfl, hsev, hleft.trans (Nat.zero_add _), hcause⟩

theorem SeverRun.steps {groups : List Group} {rm : Removal} {s s' : Store}
    (h : SeverRun who G anchor groups rm s s') (hW : Covers W who.thread G) (hWa : W anchor) :
    Steps W s (s'.less rm.removed) :=
  Steps.mono h.severed.steps fun c hc => by
    rcases hc with rfl | hc
    · exact hWa
    · exact hW c (h.severed.others c hc).2.2

theorem orderly_sever (hW : Covers W who.thread G) (hWa : W anchor) (filter : ArcFilter)
    (direction : Direction) (neighbor : Option VertexKey) :
    Orderly agree W G (AllLive [anchor]) (sever who anchor filter direction neighbor)
      fun _ => AllLive [anchor] := by
  intro s r s' hs hg hl hrun
  have ha : s.Live anchor := hl anchor List.mem_cons_self
  obtain ⟨rm, s'', rfl, rfl, h⟩ := run_sever hs hg ha hrun
  refine ⟨h.steps hW hWa, ?_⟩
  have hlive : AllLive [anchor] s'' :=
    allLive_cons.2 ⟨h.severed.live_anchor ha, allLive_nil⟩
  cases rm.result with
  | error e => exact h.severed.guarded.less _
  | ok n => exact ⟨h.severed.guarded.less _, hlive⟩

theorem orderly_disconnect (hW : Covers W who.thread G) (id : String) (probe : Probe)
    (neighbor : Option String) :
    Orderly agree W G (fun _ => True) (disconnect who id probe neighbor) fun _ _ => True := by
  unfold disconnect
  refine orderly_bind orderly_checkWritable fun _ => orderly_bind orderly_read_any fun filter => ?_
  refine orderly_bind (orderly_ofExcept (Q := fun _ => AllLive []) fun _ _ _ _ => allLive_nil)
    fun filter => ?_
  refine orderly_bind (orderly_find []) fun c => ?_
  refine orderly_holding hW (fun s hl => (hl c List.mem_cons_self).1) (frameStable_allLive _)
    (Q := fun _ _ => True) fun g hgiven hW' => ?_
  have hWc : W c := hgiven.owned (hgiven.writing rfl)
  have hsever : ∀ neighbor, Orderly agree W (g :: G) (AllLive [c])
      (sever who c filter probe.direction neighbor) fun _ _ => True :=
    fun neighbor => (orderly_sever hW' hWc filter probe.direction neighbor).weaken (fun _ h => h)
      fun _ _ _ => trivial
  cases neighbor with
  | none => exact hsever none
  | some id =>
    refine orderly_bind orderly_read_any fun found => ?_
    cases found with
    | none => exact orderly_pure fun _ _ => trivial
    | some n => exact orderly_bind orderly_read_any fun key => hsever (some key)

/-! ## Deleting -/

section Bare

variable {rm : Removal} {s s' : Store} {n : Nat}

/-- A removal that nothing stood in the way of takes off whatever its anchor sees. -/
theorem SeverRun.arcIn?_seen {filter : ArcFilter} {direction : Direction}
    {neighbor : Option VertexKey}
    (h : SeverRun who G anchor (s.groups anchor filter direction neighbor) rm s s')
    (hall : rm.cause = none) (hp : s.Placed) {c : CellId} (hc : s.Live c) {d : Direction}
    {a : StoredArc} (hseen : (s.keyOf c, d, a) ∈ s.aimedAt anchor filter direction neighbor) :
    s'.arcIn? (s.placeOf anchor c (d, a)) = none := by
  have hnone : s.blocked who.thread anchor (s.groups anchor filter direction neighbor) = [] := by
    have hcause := h.cause
    rw [hall] at hcause
    simpa using hcause
  have hclear : (!s.obstructed who.thread anchor (s.keyOf c)) = true := by
    rw [blocked, List.filter_eq_nil_iff] at hnone
    have hgroup := mem_groups_iff.2 ⟨⟨(s.keyOf c, d, a), hseen, rfl⟩, rfl⟩
    simpa using hnone _ hgroup
  have hcell : (s.lookupKey (s.keyOf c)).getD anchor = c := by
    rw [keyOf, hp.lookup_key hc, Option.getD_some]
  have hgone := (mem_flatMap_places_iff fun key => !s.obstructed who.thread anchor key).2
    ⟨s.keyOf c, (d, a), hseen, hclear, rfl⟩
  rw [hcell] at hgone
  rw [h.severed.arcs]
  exact if_pos hgone

theorem SeverRun.arcIn?_of_some {groups : List Group} (h : SeverRun who G anchor groups rm s s')
    {p : Place} {a : StoredArc} (hp : s'.arcIn? p = some a) : s.arcIn? p = some a := by
  rw [h.severed.arcs] at hp
  split at hp
  · cases hp
  · exact hp

theorem SeverRun.out_eq_empty (h : SeverRun who G anchor (s.groups anchor .all .any none) rm s s')
    (hall : rm.cause = none) (hs : s.Sound agree) (hs' : (s'.less n).Sound agree)
    (ha : s.Live anchor) : (s'.data anchor).out = .empty := by
  have ha' : (s'.less n).Live anchor := h.severed.live_anchor ha
  refine ArcIndex.eq_empty_of_arcsTo (hs'.paired.valid anchor ha').1 fun n a hm => ?_
  obtain ⟨c, hc, rfl⟩ := hs'.paired.known anchor ha' n (.inl (List.ne_nil_of_mem hm))
  have hc₀ : s.Live c := ((h.severed.live c).1 hc).1
  have hkey : s'.keyOf c = s.keyOf c := h.severed.extends.key c hc₀.1
  have hat : s'.arcIn? ⟨anchor, s.keyOf c, a.relationship, a.kind⟩ = some a := by
    rw [← hkey]
    exact (ArcIndex.mem_arcsTo_iff (hs'.paired.valid anchor ha').1 _ a).1 hm
  have hseen : (s.keyOf c, Direction.out, a) ∈ s.aimedAt anchor .all .any none :=
    mem_aimedAt_iff.2 ⟨.inl ⟨rfl, rfl, (ArcIndex.mem_arcsTo_iff (hs.paired.valid anchor ha).1 _
      a).2 (h.arcIn?_of_some hat)⟩, rfl, rfl⟩
  have hnone := h.arcIn?_seen hall hs.placed hc₀ hseen
  rw [placeOf, if_neg (fun e => by cases e), hat] at hnone
  cases hnone

theorem SeverRun.inbound_eq_empty
    (h : SeverRun who G anchor (s.groups anchor .all .any none) rm s s')
    (hall : rm.cause = none) (hs : s.Sound agree) (hs' : (s'.less n).Sound agree)
    (ha : s.Live anchor) : (s'.data anchor).inbound = .empty := by
  have ha' : (s'.less n).Live anchor := h.severed.live_anchor ha
  refine ArcIndex.eq_empty_of_arcsTo (hs'.paired.valid anchor ha').2 fun n b hm => ?_
  obtain ⟨c, hc, rfl⟩ := hs'.paired.known anchor ha' n (.inr (List.ne_nil_of_mem hm))
  have hc₀ : s.Live c := ((h.severed.live c).1 hc).1
  have hkey : s'.keyOf anchor = s.keyOf anchor := h.severed.extends.key anchor ha.1
  obtain ⟨a, hat, hregular, _⟩ := hs'.paired.out_of_inward hc ha' hm
  have hat : s'.arcIn? ⟨c, s.keyOf anchor, b.relationship, b.kind⟩ = some a := hkey ▸ hat
  obtain ⟨b', hb', _⟩ := hs.paired.inward_of_out hc₀ ha (h.arcIn?_of_some hat) hregular
  obtain ⟨hm', hr, hk⟩ := ArcIndex.get?_slot hb'
  have hseen : (s.keyOf c, Direction.inward, b') ∈ s.aimedAt anchor .all .any none :=
    mem_aimedAt_iff.2 ⟨.inr ⟨rfl, rfl, hm'⟩, rfl, rfl⟩
  have hnone := h.arcIn?_seen hall hs.placed hc₀ hseen
  rw [placeOf, if_pos rfl, hr, hk, hat] at hnone
  cases hnone

end Bare

/-- Once all arcs that it knows of are gone, a vertex has as many arcs as are
forward-only and toward it. -/
theorem orderly_severAll (hW : Covers W who.thread G) (hWa : W anchor) :
    Orderly agree W G (AllLive [anchor]) (sever who anchor .all .any none) fun _ s =>
      s.Live anchor ∧ (s.data anchor).degree = (s.data anchor).forwardOnlyIn := by
  intro s r s' hs hg hl hrun
  have ha : s.Live anchor := hl anchor List.mem_cons_self
  obtain ⟨rm, s'', rfl, rfl, h⟩ := run_sever hs hg ha hrun
  have st := h.steps hW hWa
  refine ⟨st, ?_⟩
  unfold Removal.result
  cases hcause : rm.cause with
  | some cause => exact h.severed.guarded.less _
  | none =>
    have hout := h.out_eq_empty hcause hs (Steps.sound st hs) ha
    have hin := h.inbound_eq_empty hcause hs (Steps.sound st hs) ha
    refine ⟨h.severed.guarded.less _, h.severed.live_anchor ha, ?_⟩
    have hdata : (s''.less rm.removed).data anchor = s''.data anchor := rfl
    rw [hdata, VertexData.degree, VertexData.indegree, VertexData.outdegree, hout, hin]
    exact Nat.zero_add _

/-- A vertex is taken out, or made virtual if arcs are left toward it. -/
theorem orderly_takeOut {c : CellId} (hW : W c) :
    Orderly agree W G (fun s => s.Live c ∧ (s.data c).degree = (s.data c).forwardOnlyIn)
      (do
        if 0 < (← read (·.data c)).forwardOnlyIn then
          update (·.modifyData c fun d => { d with manifestation := .virtual, expires := none })
        else
          update (·.remove c)
        return 1) fun _ _ => True := by
  refine orderly_bind (M := fun d s => (s.Live c ∧ (s.data c).degree = (s.data c).forwardOnlyIn) ∧
    s.data c = d) (orderly_read fun s _ h => ⟨h, rfl⟩) fun d => ?_
  dsimp only
  split
  next =>
    refine orderly_bind (M := fun _ _ => True) ?_ fun _ => orderly_pure fun _ _ => trivial
    exact (turns_attributes
      (f := fun d => { d with manifestation := Manifestation.virtual, expires := none }) hW
      fun _ => ⟨rfl, rfl, rfl, rfl, rfl⟩).weaken (fun _ _ => trivial) fun _ _ h => h
  next hnone =>
    refine orderly_bind (M := fun _ _ => True) (turns_update fun s _ h => ?_) fun _ =>
      orderly_pure fun _ _ => trivial
    obtain ⟨⟨hl, hdegree⟩, rfl⟩ := h
    have hbare : (s.data c).degree = 0 := hdegree.trans (Nat.eq_zero_of_not_pos hnone)
    exact ⟨.single (.remove hW hl hbare), locks_remove s c, trivial⟩

theorem orderly_delete (hW : Covers W who.thread G) (id : String) :
    Orderly agree W G (fun _ => True) (delete who id) fun _ _ => True := by
  unfold delete
  refine orderly_bind orderly_checkWritable fun _ => ?_
  refine orderly_bind ((orderly_lookup []).weaken (fun _ _ => allLive_nil) fun _ _ h => h)
    fun found => ?_
  cases found with
  | none => exact orderly_pure fun _ _ => trivial
  | some c =>
    refine orderly_holding hW (fun s hl => (hl c List.mem_cons_self).1) (frameStable_allLive _)
      (Q := fun _ _ => True) fun g hgiven hW' => ?_
    have hWc : W c := hgiven.owned (hgiven.writing rfl)
    refine orderly_bind (turns_modifyData hWc (keepsArcs_strip who.now) (frameStable_allLive _))
      fun _ => ?_
    refine .bind (turns_attempt (fun _ => True) (fun _ _ _ _ => trivial)
      (orderly_severAll hW' hWc)) fun r => ?_
    cases r with
    | ok n => exact orderly_takeOut hWc
    | error e =>
      dsimp only
      split
      · exact orderly_bind (turns_expires (f := fun d => { d with expires := some who.now }) hWc
          (fun _ => ⟨rfl, rfl, rfl, rfl, rfl⟩) _ _) fun _ => turns_fail
      · exact turns_fail

end Arcbase.Action
