import Arcbase.Proofs.Session.Arising
import Mathlib
set_option autoImplicit false

/-!
# How vertices come and go

Between two operations a virtual vertex has no outbound arcs, and it has an inbound one
unless it is held writable.  An operation takes a real vertex out, or makes it virtual,
only if it dooms it: a deletion of its identifier, or a pass with a due entry for it.  A
virtual vertex that is not doomed stays exactly as long as it has an arc, or is held
writable, or is made real.  A request that writes no arcs leaves no virtual vertex behind.

A deletion or a pass may also take out a virtual vertex without arcs while a thread holds it
writable (`not_kept_stranded_deleted`).
-/

namespace Arcbase

open Arcbase.Action Store

/-- A connect that goes through and writes nothing: no terminal passed its condition. -/
def Request.Unadmitted {α : Type} (who : Caller) (s : Session) : Request α → Prop
  | .connect r => ∃ u n, ArcUpdate.ofRequest r.arc = .ok u ∧
      (s.perform (connectWith who r u)).1 = .ok (n, none)
  | _ => False

/-- A request that has failed, or a connect that was not admitted. -/
def Operation.Fruitless (who : Caller) (s : Session) : Operation → Prop
  | ask r => (∃ e, (s.ask who r).1 = .error e) ∨ r.Unadmitted who s
  | _ => False

/-- What becomes of the vertices in one operation. -/
structure Lifecycle (op : Operation) (who : Caller) (s : Session) : Prop where
  /-- What a virtual vertex has between two operations. -/
  virtual : ∀ id c, s.store.lookup id = some c → (s.store.data c).manifestation = .virtual →
    (s.store.data c).outdegree = 0 ∧
      ((∃ p ∈ s.store.arcs, p.terminal = .of id) ∨ Written s.guards c)
  real : ∀ id c, s.store.lookup id = some c → (s.store.data c).manifestation = .real →
    ¬ op.Dooms s id →
      (op.after who s).store.lookup id = some c ∧
        ((op.after who s).store.data c).manifestation = .real
  stays : ∀ id c, s.store.lookup id = some c → (s.store.data c).manifestation = .virtual →
    ¬ op.Dooms s id →
      ((op.after who s).store.lookup id = some c ↔
        ((op.after who s).store.data c).degree ≠ 0 ∨ Written (op.after who s).guards c ∨
          (op.after who s).store.Real c)
  /-- Whoever goes has lost all arcs. -/
  gone : ∀ id c, s.store.lookup id = some c → (op.after who s).store.lookup id ≠ some c →
    ((op.after who s).store.data c).degree = 0
  fruitless : op.Fruitless who s → ∀ id c, (op.after who s).store.lookup id = some c →
    ((op.after who s).store.data c).manifestation = .virtual → ¬ op.Dooms s id →
      s.store.lookup id = some c ∧ (s.store.data c).manifestation = .virtual

variable {agree : Agreement} {D : String → Prop} {s : Session} {who : Caller} {op : Operation}
  {id : String} {c : CellId}

/-- A vertex keeps its identifier as long as it is in the graph. -/
theorem lookup_iff_live {s s' : Store} (hp : s.Placed) (hp' : s'.Placed) (he : s.Extends s')
    (hc : s.lookup id = some c) : s'.lookup id = some c ↔ s'.Live c := by
  obtain ⟨hlive, rfl⟩ := hp.of_lookup hc
  refine ⟨fun h => (hp'.of_lookup h).1, fun h => ?_⟩
  rw [← he.id c hlive.1]
  exact hp'.lookup_of_live h

/-- A vertex with arcs, none of them outbound, is the terminal of one. -/
theorem exists_toward {s : Store} (hs : s.Sound agree) (hc : s.lookup id = some c)
    (hout : (s.data c).out = .empty) (hdegree : (s.data c).degree ≠ 0) :
    ∃ p ∈ s.arcs, p.terminal = .of id := by
  have hlive := (hs.placed.of_lookup hc).1
  by_contra hnone
  refine hdegree ((degree_eq_zero_iff hs hlive).2 fun p hp htouch => ?_)
  rw [PlacedArc.touches, hs.placed.keyOf_of_lookup hc] at htouch
  rcases htouch with hinitial | hterminal
  · obtain ⟨i, hi, hk, ha⟩ := (mem_arcs_iff hs.placed).1 hp
    obtain rfl := hs.placed.eq_of_key hi hlive
      (hk.trans (hinitial.trans (hs.placed.keyOf_of_lookup hc).symm))
    rw [hout] at ha
    exact absurd ha List.not_mem_nil
  · exact hnone ⟨p, hp, hterminal⟩

/-- A request that writes no arcs makes only moves that write none. -/
theorem Operation.Fruitless.moves (hs : s.Sound agree) (hv : s.store.labels.relationships.Valid)
    (hlive : op.Live) (h : op.Fruitless who s) :
    Moves (op.Dooms s) False s.scene (op.after who s).scene ∧
      (op.after who s).guards = s.guards := by
  cases op with
  | ask r =>
    refine ⟨?_, rfl⟩
    rcases h with ⟨e, herror⟩ | hunadmitted
    · refine (Session.moves_perform hs ⟨hv, fun _ h => h⟩ (steady_request r hlive)).mono
        (fun _ h => h) ?_
      rintro ⟨x, hok, _⟩
      exact nomatch herror.symm.trans hok
    · cases r with
      | connect r =>
        obtain ⟨u, n, hu, hok⟩ := hunadmitted
        have hsame : (Operation.ask (.connect r)).after who s =
            (s.perform (connectWith who r u)).2 := by
          simp only [after, Session.ask, Session.perform, Request.action, connect, run_bind,
            Action.ofExcept, run_ofFun, hu]
          cases hrun : (connectWith who r u).run s.store with
          | mk x store => cases x <;> rfl
        rw [hsame]
        refine (Session.moves_perform hs hv (steady_connectWith (ArcUpdate.fits_ofRequest hu))).mono
          (fun _ h => h) ?_
        rintro ⟨x, hx, hwrote⟩
        obtain rfl := Except.ok.inj (hok.symm.trans hx)
        cases hwrote
      | _ => exact hunadmitted.elim
  | _ => exact h.elim

/-- What is virtual after moves that write no arcs, and not held by a new guard, was virtual. -/
theorem Moves.virtual_before {x y : Scene} (m : Moves D False x y) (hx : x.Ordered agree)
    (hk : x.Kempt) (hy : y.loose = []) (hguards : y.guards = x.guards)
    (hc : y.store.Virtual c) (hD : ¬ D (y.store.cell c).id) : x.store.Virtual c := by
  have st := Moves.steps m hx
  by_cases hlt : c < x.store.cells.size
  · have hlive := Steps.live_of_lt st hlt hc.live
    refine ⟨hlive, ?_⟩
    cases hm : (x.store.data c).manifestation with
    | virtual => rfl
    | real =>
      rcases Moves.real m hx ⟨hlive, hm⟩ with hreal | hdoomed
      · exact nomatch hreal.manifestation.symm.trans hc.manifestation
      · exact absurd ((Steps.extends st).id c hlt ▸ hdoomed) hD
  · have hzero := Moves.degree_eq_zero m hx id (Nat.le_of_not_lt hlt) hc.live
    rcases (Moves.kempt m hx hk).kept c hc with hdegree | ⟨g, hg, _, hslot⟩ | hmem
    · exact absurd hzero hdegree
    · exact absurd (hslot ▸ (hx.guarded.item g (hguards ▸ hg)).1) hlt
    · rw [hy] at hmem
      exact absurd hmem List.not_mem_nil

/-- Vertices come and go as their arcs, their writers and the operations that doom them
have it. -/
theorem lifecycle (h : Arises Operation.Live s) (who : Caller) (op : Operation)
    (hop : op.Live) : Lifecycle op who s := by
  have hs := h.reach.sound_live
  have hafter : Arises Operation.Live (op.after who s) := h.step who op hop
  have hs' := hafter.reach.sound_live
  have m := op.moves_after hs h.valid who hop
  have st := Moves.steps m hs.ordered
  have hlookup : ∀ {id c}, s.store.lookup id = some c →
      ((op.after who s).store.lookup id = some c ↔ (op.after who s).store.Live c) :=
    lookup_iff_live hs.store.placed hs'.store.placed (Steps.extends st)
  have hvirtual : ∀ {s : Session} {id c}, s.Sound .equal → s.scene.Kempt →
      s.store.lookup id = some c → (s.store.data c).manifestation = .virtual →
      (s.store.data c).out = .empty ∧ ((s.store.data c).degree ≠ 0 ∨ Written s.guards c) := by
    intro s id c hs hk hc hv
    have hlive := (hs.store.placed.of_lookup hc).1
    refine ⟨hk.out c ⟨hlive, hv⟩, (hk.kept c ⟨hlive, hv⟩).imp_right fun hor => ?_⟩
    exact hor.resolve_right List.not_mem_nil
  refine ⟨fun id c hc hv => ?_, fun id c hc hr hD => ?_, fun id c hc hv hD => ?_,
    fun id c hc hgone => ?_, fun hfruitless id c hc hv hD => ?_⟩
  · obtain ⟨hout, hkept⟩ := hvirtual hs h.kempt hc hv
    refine ⟨?_, hkept.imp_left (exists_toward hs.store hc hout)⟩
    rw [VertexData.outdegree, hout]
    rfl
  · obtain ⟨hlive, rfl⟩ := hs.store.placed.of_lookup hc
    obtain ⟨hlive', hr'⟩ := (Moves.real m hs.ordered ⟨hlive, hr⟩).resolve_right hD
    exact ⟨(hlookup hc).2 hlive', hr'⟩
  · rw [hlookup hc]
    obtain ⟨hlive, rfl⟩ := hs.store.placed.of_lookup hc
    constructor
    · intro hlive'
      cases hm : ((op.after who s).store.data c).manifestation with
      | virtual =>
        exact (hvirtual hs' hafter.kempt ((hlookup hc).2 hlive') hm).2.imp_right .inl
      | real => exact .inr (.inr ⟨hlive', hm⟩)
    · intro hkept
      by_contra hgone
      rcases hkept with hdegree | ⟨g, hg, _, hslot⟩ | hreal
      · exact hdegree (Steps.degree_of_gone st hlive hgone)
      · rcases Moves.live_or_unheld m hs.ordered hlive with hlive' | hdoomed | hfree
        · exact hgone hlive'
        · exact hD hdoomed
        · exact hfree g hg hslot
      · exact hgone hreal.live
  · exact Steps.degree_of_gone st (hs.store.placed.of_lookup hc).1 fun hlive' =>
      hgone ((hlookup hc).2 hlive')
  · obtain ⟨m', hguards⟩ := hfruitless.moves hs h.valid hop
    obtain ⟨hlive', rfl⟩ := hs'.store.placed.of_lookup hc
    have hbefore := Moves.virtual_before m' hs.ordered h.kempt rfl hguards ⟨hlive', hv⟩ hD
    refine ⟨?_, hbefore.manifestation⟩
    have hid := (Steps.extends st).id c hbefore.live.1
    exact hid ▸ hs.store.placed.lookup_of_live hbefore.live

/-- A virtual vertex that its only neighbor's thread holds writable. -/
def linked : Session :=
  (Operation.escalate "h").after ⟨⟨"m"⟩, 7⟩
    ((Operation.openVertex "h" "b" .readonly).after ⟨⟨"m"⟩, 6⟩
      ((Operation.ask (.connect
        { initial := "a", arc := { relationship := "r" }, terminals := .one "b" })).after
          ⟨⟨"m"⟩, 5⟩ (.new {} .new)))

/-- The same vertex without its arc. -/
def stranded : Session :=
  (Operation.ask (.disconnect "a" .any none)).after ⟨⟨"m"⟩, 8⟩ linked

theorem arises_linked : Arises Operation.Live linked := by
  have hempty : Arises Operation.Live (.new {} .new) := .start {} 65535 65535 .refl
  have hconnected := hempty.step ⟨⟨"m"⟩, 5⟩ (.ask (.connect
    { initial := "a", arc := { relationship := "r" }, terminals := .one "b" })) rfl
  have hopened := hconnected.step ⟨⟨"m"⟩, 6⟩ (.openVertex "h" "b" .readonly) trivial
  exact hopened.step ⟨⟨"m"⟩, 7⟩ (.escalate "h") trivial

theorem arises_stranded : Arises Operation.Live stranded :=
  arises_linked.step ⟨⟨"m"⟩, 8⟩ (.ask (.disconnect "a" .any none)) rfl

/-- When its thread closes the handle, the vertex without arcs goes. -/
theorem lifecycle_stranded_closed :
    stranded.store.lookup "b" = some 1 ∧ (stranded.store.data 1).manifestation = .virtual ∧
      Lifecycle (.close "h") ⟨⟨"m"⟩, 9⟩ stranded ∧
        ((Operation.close "h").after ⟨⟨"m"⟩, 9⟩ stranded).store.lookup "b" ≠ some 1 := by
  obtain ⟨hbefore, hafter⟩ :
      (stranded.store.lookup "b" = some 1 ∧ (stranded.store.data 1).manifestation = .virtual) ∧
      ((Operation.close "h").after ⟨⟨"m"⟩, 9⟩ stranded).store.lookup "b" = none := by
    set_option maxRecDepth 10000 in
    cbv
  refine ⟨hbefore.1, hbefore.2, lifecycle arises_stranded ⟨⟨"m"⟩, 9⟩ (.close "h") trivial, ?_⟩
  exact fun h => Option.some_ne_none 1 (h.symm.trans hafter)

/-- A virtual vertex may go neither with its last arc nor with the last writable handle. -/
theorem not_kept_stranded_deleted :
    ¬ ∀ s : Session, Arises Operation.Live s → ∀ (who : Caller) (op : Operation), op.Live →
      ∀ id c, s.store.lookup id = some c → (s.store.data c).manifestation = .virtual →
        (op.after who s).store.lookup id ≠ some c →
          (s.store.data c).degree ≠ 0 ∨ ¬ Written (op.after who s).guards c := by
  intro hall
  obtain ⟨hbefore, hafter, hheld⟩ :
      (stranded.store.lookup "b" = some 1 ∧ (stranded.store.data 1).manifestation = .virtual ∧
        (stranded.store.data 1).degree = 0) ∧
      ((Operation.ask (.delete "b")).after ⟨⟨"m"⟩, 9⟩ stranded).store.lookup "b" = none ∧
      (((Operation.ask (.delete "b")).after ⟨⟨"m"⟩, 9⟩ stranded).guards.any fun g =>
        g.hold == .writer && g.item.slot == 1) = true := by
    set_option maxRecDepth 10000 in
    cbv
  have hgone := hall stranded arises_stranded ⟨⟨"m"⟩, 9⟩ (.ask (.delete "b")) rfl "b" 1
    hbefore.1 hbefore.2.1 fun h => Option.some_ne_none 1 (h.symm.trans hafter)
  rcases hgone with hdegree | hunheld
  · exact hdegree hbefore.2.2
  · obtain ⟨g, hg, hgood⟩ := List.any_eq_true.1 hheld
    exact hunheld ⟨g, hg, by simpa using hgood⟩

end Arcbase
