import Arcbase.Proofs.Scene.Arcs
set_option autoImplicit false

/-!
# Which vertices stay while a graph is in use

A real vertex stays real unless it may be taken out (`Moves.real`).  A virtual vertex has
no outbound arcs, and it has an inbound one or is held writable (`Kempt`); while anyone
holds it, it stays (`Moves.live_or_unheld`).  A vertex that has come without leave to write
arcs has none (`Moves.degree_eq_zero`).
-/

namespace Arcbase

namespace Store

/-- A virtual vertex that is in the graph. -/
def Virtual (s : Store) (c : CellId) : Prop := s.Live c ∧ (s.data c).manifestation = .virtual

/-- A real vertex that is in the graph. -/
def Real (s : Store) (c : CellId) : Prop := s.Live c ∧ (s.data c).manifestation = .real

variable {s s' : Store} {W : CellId → Prop} {c : CellId}

theorem Virtual.live (h : s.Virtual c) : s.Live c := h.1

theorem Virtual.manifestation (h : s.Virtual c) : (s.data c).manifestation = .virtual := h.2

theorem Real.live (h : s.Real c) : s.Live c := h.1

theorem Real.manifestation (h : s.Real c) : (s.data c).manifestation = .real := h.2

/-- Nothing that has been taken out comes back. -/
theorem Step.live_of_lt (st : Step W s s') (hc : c < s.cells.size)
    (hl : s'.Live c) : s.Live c := by
  cases st with
  | attributes _ keeps => exact (keeps.sameFrame s _).live_iff.1 hl
  | add _ _ kept =>
    rcases (live_addCell_iff kept).1 hl with rfl | hl
    · exact absurd hc (Nat.lt_irrefl _)
    · exact hl
  | remove => exact (live_remove_iff.1 hl).1
  | put => exact (sameFrame_putArc ..).live_iff.1 hl
  | detach => exact (sameFrame_detach ..).live_iff.1 hl
  | _ => exact hl

theorem Steps.live_of_lt (st : Steps W s s') (hc : c < s.cells.size)
    (hl : s'.Live c) : s.Live c := by
  induction st with
  | refl => exact hl
  | tail hst st ih =>
    exact ih (st.live_of_lt (Nat.lt_of_lt_of_le hc (Steps.extends hst).count) hl)

theorem degree_congr {d d' : VertexData} (hout : d'.out = d.out) (hin : d'.inbound = d.inbound)
    (hcount : d'.forwardOnlyIn = d.forwardOnlyIn) : d'.degree = d.degree := by
  rw [VertexData.degree, VertexData.indegree, VertexData.outdegree, hout, hin, hcount]
  rfl

/-- A vertex is taken out when it has no arcs, and gets none afterwards. -/
theorem Step.degree_of_gone (st : Step W s s') (hc : c < s.cells.size)
    (h : s.Live c ∨ (s.data c).degree = 0) (hgone : ¬ s'.Live c) : (s'.data c).degree = 0 := by
  -- only a removal takes a vertex out, and it sets no more than a mark
  have hdead : (s'.data c).degree = (s.data c).degree → (s.Live c → s'.Live c) →
      (s'.data c).degree = 0 := fun hdegree hlive =>
    hdegree.trans (h.resolve_left fun hl => hgone (hlive hl))
  cases st with
  | attributes _ keeps =>
    refine hdead ?_ (keeps.sameFrame s _).live_iff.2
    rw [data_modifyData_ite]
    split
    · exact degree_congr (keeps _).1 (keeps _).2.1 (keeps _).2.2.1
    · rfl
  | add _ _ kept =>
    refine hdead ?_ fun hl => (live_addCell_iff kept).2 (.inr hl)
    rw [data, cell_addCell, if_neg (Nat.ne_of_lt hc)]
    rfl
  | @remove c' _ live bare =>
    by_cases he : c' = c
    · subst he
      rw [data, cell_remove, cell_modifyData]
      split <;> exact bare
    · exact hdead (by rw [(data_remove_of_ne he).1]) fun hl => live_remove_iff.2 ⟨hl, he⟩
  | @put i t _ _ initial terminal relationship kind forwardOnly u now =>
    have hframe : s.SameFrame (s.putArc i t relationship kind forwardOnly u now).2 :=
      sameFrame_putArc ..
    have hdata := (Step.put (W := s.Live) initial terminal initial terminal relationship kind
      forwardOnly u now).data_eq (fun hl => hgone (hframe.live_iff.2 hl)) hc
    exact hdead (by rw [hdata]) hframe.live_iff.2
  | @detach i t arc _ _ _ initial terminal found =>
    have hframe := s.sameFrame_detach i t arc
    have hdata := (Step.detach (W := s.Live) initial terminal initial terminal found).data_eq
      (fun hl => hgone (hframe.live_iff.2 hl)) hc
    exact hdead (by rw [hdata]) hframe.live_iff.2
  | _ => exact hdead rfl id

theorem Steps.degree_of_gone (st : Steps W s s') (h : s.Live c) (hgone : ¬ s'.Live c) :
    (s'.data c).degree = 0 := by
  induction st with
  | refl => exact absurd h hgone
  | @tail z _ hst st ih =>
    have hc := Nat.lt_of_lt_of_le h.1 (Steps.extends hst).count
    exact st.degree_of_gone hc (or_iff_not_imp_left.2 ih) hgone

end Store

open Store

variable {D : String → Prop} {A : Prop} {agree : Agreement} {x y : Scene} {c : CellId}

/-! ## Real vertices -/

theorem Move.real (m : Move D A x y) (hx : x.Ordered agree) (h : x.store.Real c) :
    y.store.Real c ∨ D (x.store.cell c).id := by
  obtain ⟨hlive, hreal⟩ := h
  have hnot : ¬ (x.store.data c).manifestation = .virtual := fun e => nomatch hreal.symm.trans e
  cases m with
  | attributes _ _ _ _ keeps rises =>
    refine .inl ⟨(keeps.sameFrame _ _).live_iff.2 hlive, ?_⟩
    rw [data_modifyData_ite]
    split
    · exact (rises _).elim (fun e => e.trans hreal) id
    · exact hreal
  | add _ _ kept =>
    refine .inl ⟨(live_addCell_iff kept).2 (.inr hlive), ?_⟩
    rw [(data_addCell_of_live hlive).1]
    exact hreal
  | give =>
    refine .inl ⟨(live_surrender_iff hx.guarded).2 ⟨hlive, fun e => hnot e.2.2.2.1⟩, ?_⟩
    exact (fields_surrender hx.guarded c).2.2.2.trans hreal
  | put _ _ initial terminal =>
    refine .inl ⟨(sameFrame_putArc ..).live_iff.2 hlive, ?_⟩
    rw [data_putArc _ _ _ _ _ initial.1 terminal.1]
    exact hreal
  | sever severed =>
    have hsame := severed.manifestation c
    exact .inl ⟨(severed.live c).2 ⟨hlive, fun e => hnot (hsame.symm.trans e.2.2.1)⟩,
      hsame.trans hreal⟩
  | @remove _ _ s c' doomed =>
    by_cases he : c' = c
    · exact .inr (he ▸ doomed)
    · refine .inl ⟨live_remove_iff.2 ⟨hlive, he⟩, ?_⟩
      rw [(data_remove_of_ne he).1]
      exact hreal
  | @demote _ _ s c' doomed =>
    by_cases he : c' = c
    · exact .inr (he ▸ doomed)
    · refine .inl ⟨(sameFrame_modifyData (f := fun d =>
        { d with manifestation := .virtual, expires := none }) _ _ fun _ => rfl).live_iff.2
          hlive, ?_⟩
      rw [data_modifyData_ite, if_neg fun e => he e.1]
      exact hreal
  | _ => exact .inl ⟨hlive, hreal⟩

theorem Moves.real (m : Moves D A x y) (hx : x.Ordered agree) (h : x.store.Real c) :
    y.store.Real c ∨ D (x.store.cell c).id := by
  induction m with
  | refl => exact .inl h
  | tail hm m ih =>
    rcases ih with hr | hD
    · have hid := (Steps.extends (Moves.steps hm hx)).id c h.live.1
      exact hid ▸ m.real (Moves.ordered hm hx) hr
    · exact .inr hD

/-! ## Guards -/

/-- Whoever goes is held by nobody any more. -/
theorem Move.live_or_unheld (m : Move D A x y) (hx : x.Ordered agree) (h : x.store.Live c) :
    y.store.Live c ∨ D (x.store.cell c).id ∨ ∀ g ∈ y.guards, g.item.slot ≠ c := by
  cases m with
  | attributes _ _ _ _ keeps =>
    exact .inl ((keeps.sameFrame _ _).live_iff.2 h)
  | add _ _ kept => exact .inl ((live_addCell_iff kept).2 (.inr h))
  | @give G back _ s g _ _ kept =>
    by_cases hgone : (s.surrender g).Live c
    · exact .inl hgone
    · refine .inr (.inr fun g' hm e => ?_)
      have hcase := not_not.1 fun hn => hgone ((live_surrender_iff hx.guarded).2 ⟨h, hn⟩)
      obtain ⟨_, hslot, hnone, _⟩ := hcase
      rcases List.mem_append.1 hm with hm | hm
      · exact hgone (hslot ▸ (kept g' hm).2)
      · have hon : g' ∈ Guard.onSlot c G := Guard.mem_onSlot.2 ⟨hm, e⟩
        rw [hnone] at hon
        exact List.not_mem_nil hon
  | put => exact .inl ((sameFrame_putArc ..).live_iff.2 h)
  | @sever G _ s s' _ _ _ _ _ severed =>
    by_cases hgone : s'.Live c
    · exact .inl hgone
    · refine .inr (.inr fun g' hm e => ?_)
      obtain ⟨_, hnone, _⟩ := not_not.1 fun hn => hgone ((severed.live c).2 ⟨h, hn⟩)
      have hon : g' ∈ Guard.onSlot c G := Guard.mem_onSlot.2 ⟨hm, e⟩
      rw [hnone] at hon
      exact List.not_mem_nil hon
  | @remove _ _ s c' doomed =>
    by_cases he : c' = c
    · exact .inr (.inl (he ▸ doomed))
    · exact .inl (live_remove_iff.2 ⟨h, he⟩)
  | demote => exact .inl ((sameFrame_modifyData (f := fun d =>
      { d with manifestation := .virtual, expires := none }) _ _ fun _ => rfl).live_iff.2 h)
  | _ => exact .inl h

/-- Nobody gets hold of a vertex that is gone. -/
theorem Move.unheld (m : Move D A x y) (h : ¬ x.store.Live c)
    (hfree : ∀ g ∈ x.guards, g.item.slot ≠ c) : ∀ g ∈ y.guards, g.item.slot ≠ c := by
  cases m with
  | locks _ _ placed =>
    rintro g hm rfl
    rcases placed g hm with hlive | ⟨g₀, hm₀, he⟩
    · exact h hlive
    · exact hfree g₀ hm₀ he
  | give _ kept =>
    rintro g hm rfl
    rcases List.mem_append.1 hm with hm | hm
    · exact hfree _ List.mem_cons_self (kept g hm).1.symm
    · exact hfree g (List.mem_cons_of_mem _ hm) rfl
  | _ => exact hfree

theorem Moves.live_or_unheld (m : Moves D A x y) (hx : x.Ordered agree) (h : x.store.Live c) :
    y.store.Live c ∨ D (x.store.cell c).id ∨ ∀ g ∈ y.guards, g.item.slot ≠ c := by
  induction m with
  | refl => exact .inl h
  | @tail z y hm m ih =>
    by_cases hz : z.store.Live c
    · have hid := (Steps.extends (Moves.steps hm hx)).id c h.1
      exact hid ▸ m.live_or_unheld (Moves.ordered hm hx) hz
    · rcases ih with hlive | hD | hfree
      · exact absurd hlive hz
      · exact .inr (.inl hD)
      · exact .inr (.inr (m.unheld hz hfree))

/-! ## Virtual vertices -/

/-- A virtual vertex has no outbound arcs; and it has an inbound one, or is held writable,
or is one of the loose ones. -/
structure Scene.Kempt (x : Scene) : Prop where
  out : ∀ c, x.store.Virtual c → (x.store.data c).out = .empty
  kept : ∀ c, x.store.Virtual c →
    (x.store.data c).degree ≠ 0 ∨ Written x.guards c ∨ c ∈ x.loose

/-- A move that leaves arcs, guards and loose vertices alone, and makes no vertex virtual. -/
theorem kempt_of_same (h : x.Kempt) (hguards : y.guards = x.guards) (hloose : y.loose = x.loose)
    (hsame : ∀ c, y.store.Virtual c → x.store.Virtual c ∧
      (y.store.data c).out = (x.store.data c).out ∧
      (y.store.data c).inbound = (x.store.data c).inbound ∧
      (y.store.data c).forwardOnlyIn = (x.store.data c).forwardOnlyIn) : y.Kempt := by
  refine ⟨fun c hc => ?_, fun c hc => ?_⟩
  · obtain ⟨hv, hout, _⟩ := hsame c hc
    exact hout.trans (h.out c hv)
  · obtain ⟨hv, hout, hin, hcount⟩ := hsame c hc
    rw [degree_congr hout hin hcount, hguards, hloose]
    exact h.kept c hv

theorem Scene.Kempt.put {G : List Guard} {F : List CellId} {s : Store} (h : Kempt ⟨G, F, s⟩)
    (hs : s.Sound agree) {i t : CellId} {relationship : LabelCode} {kind : ArcKind}
    {forwardOnly : Bool} {u : ArcUpdate} {now : UInt32} (hi : s.Live i) (ht : s.Live t)
    (real : (s.data i).manifestation = .real) :
    Kempt ⟨G, F, (s.putArc i t relationship kind forwardOnly u now).2⟩ := by
  have w := wrote_putArc hi ht relationship kind forwardOnly u now
  have hs' : (s.putArc i t relationship kind forwardOnly u now).2.Sound agree :=
    (Step.put (W := fun _ => True) trivial trivial hi ht relationship kind forwardOnly u
      now).sound hs
  have hvirtual : ∀ c, (s.putArc i t relationship kind forwardOnly u now).2.Virtual c →
      s.Virtual c := by
    intro c ⟨hl, hv⟩
    refine ⟨w.frame.live_iff.1 hl, ?_⟩
    rw [w.data] at hv
    exact hv
  have hne : ∀ c, s.Virtual c → ¬ i = c := by
    rintro c hc rfl
    exact nomatch real.symm.trans hc.manifestation
  refine ⟨fun c hc => ?_, fun c hc => ?_⟩
  · have hv := hvirtual c hc
    change ((s.putArc i t relationship kind forwardOnly u now).2.data c).out = .empty
    rw [w.initialSide.out, if_neg (hne c hv)]
    exact h.out c hv
  · have hv := hvirtual c hc
    by_cases htc : t = c
    · subst htc
      -- the arc that has been written is there
      have hstored : ((s.putArc i t relationship kind forwardOnly u now).2).arcAt? i t relationship
          kind = some (s.writtenArc i t relationship kind forwardOnly u now) := by
        rw [w.initialSide.arcAt? hs.placed ht ht, if_pos]
        exact ⟨rfl, rfl, Slots.inSlot_self _⟩
      refine .inl fun hzero => ?_
      have htouch := (degree_eq_zero_iff hs' hc.live).1 hzero _
        (arcAt?_mem_arcs hs' (w.frame.live_iff.2 hi) hstored)
      exact htouch (.inr rfl)
    · have hdata : ((s.putArc i t relationship kind forwardOnly u now).2.data c) = s.data c := by
        rw [w.data, dataWith]
        simp [hne c hv, htc]
      change ((s.putArc i t relationship kind forwardOnly u now).2.data c).degree ≠ 0 ∨ _
      rw [hdata]
      exact h.kept c hv

theorem Scene.Kempt.sever {G : List Guard} {F : List CellId} {s s' : Store} (h : Kempt ⟨G, F, s⟩)
    {me : Thread} {anchor : CellId} {gone : List Place} {freed : List CellId} {n : Nat}
    (severed : Severed me G anchor gone freed 0 n s s') (held : Written G anchor)
    (hs' : (s'.less n).Sound agree) : Kempt ⟨G, F, s'.less n⟩ := by
  have hvirtual : ∀ c, s'.Virtual c → s.Virtual c := fun c ⟨hl, hv⟩ =>
    ⟨((severed.live c).1 hl).1, (severed.manifestation c).symm.trans hv⟩
  refine ⟨fun c hc => ?_, fun c hc => ?_⟩
  · have hout : (s.data c).out = .empty := h.out c (hvirtual c hc)
    refine ArcIndex.eq_empty_of_arcsTo (hs'.paired.valid c hc.live).1 fun n' a hm => ?_
    have hat := (ArcIndex.mem_arcsTo_iff (hs'.paired.valid c hc.live).1 n' a).1 hm
    have hplace := severed.arcs ⟨c, n', a.relationship, a.kind⟩
    rw [show s'.arcIn? ⟨c, n', a.relationship, a.kind⟩ = some a from hat, arcIn?, hout] at hplace
    split at hplace <;> cases hplace
  · by_cases hanchor : c = anchor
    · exact .inr (.inl (hanchor ▸ held))
    · by_cases hfreed : c ∈ freed
      · obtain ⟨_, hkept⟩ := (severed.live c).1 hc.live
        by_cases hzero : (s'.data c).degree = 0
        · have hguard : Guard.onSlot c G ≠ [] := fun e => hkept ⟨hfreed, e, hc.manifestation, hzero⟩
          obtain ⟨g, hg⟩ := List.exists_mem_of_ne_nil _ hguard
          obtain ⟨hm, hslot⟩ := Guard.mem_onSlot.1 hg
          exact .inr (.inl ⟨g, hm, ((severed.others c hfreed).2.2 g hm hslot).1, hslot⟩)
        · exact .inl hzero
      · have hdata : s'.data c = s.data c := Steps.data_eq severed.steps
          (fun e => e.elim hanchor hfreed) (hvirtual c hc).live.1
        change (s'.data c).degree ≠ 0 ∨ _
        rw [hdata]
        exact h.kept c (hvirtual c hc)

theorem Scene.Kempt.addCell {G : List Guard} {F F' : List CellId} {s : Store}
    (h : Kempt ⟨G, F, s⟩) {new : Cell} (kept : new.data.deleted = false) (bare : Bare new.data)
    (loose : new.data.manifestation = .virtual → s.cells.size ∈ F') (more : ∀ c ∈ F, c ∈ F') :
    Kempt ⟨G, F', s.addCell new⟩ := by
  have hcases : ∀ c, (s.addCell new).Virtual c →
      c = s.cells.size ∧ new.data.manifestation = .virtual ∧ (s.addCell new).data c = new.data ∨
        s.Virtual c ∧ (s.addCell new).data c = s.data c := by
    intro c ⟨hl, hv⟩
    rcases (live_addCell_iff kept).1 hl with rfl | hl
    · have hdata := (data_addCell_new s new).1
      exact .inl ⟨rfl, hdata ▸ hv, hdata⟩
    · have hdata : (s.addCell new).data c = s.data c := (data_addCell_of_live hl).1
      exact .inr ⟨⟨hl, hdata ▸ hv⟩, hdata⟩
  refine ⟨fun c hc => ?_, fun c hc => ?_⟩
  · rcases hcases c hc with ⟨_, _, hdata⟩ | ⟨hv, hdata⟩
    · exact (congrArg VertexData.out hdata).trans bare.out
    · exact (congrArg VertexData.out hdata).trans (h.out c hv)
  · rcases hcases c hc with ⟨rfl, hvirtual, _⟩ | ⟨hv, hdata⟩
    · exact .inr (.inr (loose hvirtual))
    · have hdegree := congrArg VertexData.degree hdata
      exact (h.kept c hv).imp (fun hd => hdegree ▸ hd) fun hk => hk.imp_right (more c)

theorem Scene.Kempt.give {G back : List Guard} {F : List CellId} {s : Store} {g : Guard}
    (h : Kempt ⟨g :: G, F, s⟩) (hg : s.Guarded (g :: G)) (locks : LockTable) :
    Kempt ⟨back ++ G, F, { s.surrender g with locks }⟩ := by
  have hfields := fields_surrender hg
  have hvirtual : ∀ c, (s.surrender g).Virtual c → s.Virtual c := fun c ⟨hl, hv⟩ =>
    ⟨((live_surrender_iff hg).1 hl).1, (hfields c).2.2.2.symm.trans hv⟩
  refine ⟨fun c hc => (hfields c).1.trans (h.out c (hvirtual c hc)), fun c hc => ?_⟩
  have hv := hvirtual c hc
  have hdegree : ((s.surrender g).data c).degree = (s.data c).degree :=
    degree_congr (hfields c).1 (hfields c).2.1 (hfields c).2.2.1
  by_cases hzero : (s.data c).degree = 0
  · refine .inr ?_
    rcases (h.kept c hv).resolve_left (fun hd => hd hzero) with hwritten | hloose
    · refine .inl (Written.append ?_ back)
      rcases written_cons.1 hwritten with ⟨hwriter, hslot⟩ | hwritten
      · -- another guard is on it, or it would have gone
        refine hg.written_of_onSlot hwriter hslot fun hnone => ?_
        exact ((live_surrender_iff hg).1 hc.live).2
          ⟨hwriter, hslot, hnone, hv.manifestation, hzero⟩
      · exact hwritten
    · exact .inr hloose
  · exact .inl fun e => hzero (hdegree.symm.trans e)

theorem Scene.Kempt.demote {G : List Guard} {F : List CellId} {s : Store} (h : Kempt ⟨G, F, s⟩)
    {c' : CellId} (out : (s.data c').out = .empty) (kept : 0 < (s.data c').forwardOnlyIn) :
    Kempt ⟨G, F,
      s.modifyData c' fun d => { d with manifestation := .virtual, expires := none }⟩ := by
  have hframe : s.SameFrame (s.modifyData c' fun d =>
      { d with manifestation := .virtual, expires := none }) :=
    sameFrame_modifyData s c' fun _ => rfl
  have hdata : ∀ c, ((s.modifyData c' fun d =>
      { d with manifestation := .virtual, expires := none }).data c).out = (s.data c).out ∧
      ((s.modifyData c' fun d =>
        { d with manifestation := .virtual, expires := none }).data c).degree =
          (s.data c).degree := by
    intro c
    rw [data_modifyData_ite]
    split <;> exact ⟨rfl, rfl⟩
  have hcases : ∀ c, (s.modifyData c' fun d =>
      { d with manifestation := .virtual, expires := none }).Virtual c → c' = c ∨ s.Virtual c := by
    intro c ⟨hl, hv⟩
    by_cases he : c' = c
    · exact .inl he
    · rw [data_modifyData_ite, if_neg fun e => he e.1] at hv
      exact .inr ⟨hframe.live_iff.1 hl, hv⟩
  refine ⟨fun c hc => (hdata c).1.trans ?_, fun c hc => ?_⟩
  · rcases hcases c hc with rfl | hv
    · exact out
    · exact h.out c hv
  · rw [(hdata c).2]
    rcases hcases c hc with rfl | hv
    · refine .inl fun hzero => ?_
      rw [VertexData.degree, VertexData.indegree] at hzero
      omega
    · exact h.kept c hv

theorem Move.kempt (m : Move D A x y) (hx : x.Ordered agree) (h : x.Kempt) : y.Kempt := by
  have hy := m.ordered hx
  cases m with
  | locks _ held _ settled =>
    refine ⟨h.out, fun c hc => ?_⟩
    rcases h.kept c hc with hdegree | hwritten | hloose
    · exact .inl hdegree
    · exact .inr (.inl (held c hwritten))
    · exact .inr (settled c hloose).symm
  | labels => exact kempt_of_same h rfl rfl fun c hc => ⟨hc, rfl, rfl, rfl⟩
  | schedule => exact kempt_of_same h rfl rfl fun c hc => ⟨hc, rfl, rfl, rfl⟩
  | attributes _ _ s c' keeps rises =>
    refine kempt_of_same h rfl rfl fun c hc => ?_
    obtain ⟨hl, hv⟩ := hc
    have hlive : s.Live c := (keeps.sameFrame _ _).live_iff.1 hl
    rw [data_modifyData_ite] at hv ⊢
    split at hv
    next hcase =>
      rw [if_pos hcase]
      refine ⟨⟨hlive, ?_⟩, (keeps _).1, (keeps _).2.1, (keeps _).2.2.1⟩
      exact (rises _).elim (fun e => e.symm.trans hv) fun e => nomatch e.symm.trans hv
    next hcase =>
      rw [if_neg hcase]
      exact ⟨⟨hlive, hv⟩, rfl, rfl, rfl⟩
  | add _ _ kept bare _ loose more => exact h.addCell kept bare loose more
  | give => exact h.give hx.guarded _
  | put _ _ initial terminal real => exact h.put hx.sound initial terminal real
  | sever severed held => exact h.sever severed held hy.sound
  | @remove _ _ s c' _ live =>
    refine kempt_of_same h rfl rfl fun c hc => ?_
    obtain ⟨hl, hv⟩ := hc
    obtain ⟨hlive, hne⟩ := live_remove_iff.1 hl
    have hdata : (s.remove c').data c = s.data c := (data_remove_of_ne hne).1
    rw [hdata] at hv
    exact ⟨⟨hlive, hv⟩, by rw [hdata], by rw [hdata], by rw [hdata]⟩
  | demote _ _ _ _ out kept => exact h.demote out kept

theorem Moves.kempt (m : Moves D A x y) (hx : x.Ordered agree) (h : x.Kempt) : y.Kempt := by
  induction m with
  | refl => exact h
  | tail hm m ih => exact m.kempt (Moves.ordered hm hx) ih

/-! ## New vertices -/

/-- A vertex comes without arcs. -/
theorem Move.live_or_bare (m : Move D A x y) (hx : x.Ordered agree) (h : y.store.Live c) :
    x.store.Live c ∨ Bare (y.store.data c) := by
  have st := m.steps hx
  have hold : y.store.cells.size = x.store.cells.size → x.store.Live c :=
    fun hsize => Steps.live_of_lt st (hsize ▸ h.1) h
  cases m with
  | add _ _ kept bare =>
    rcases (live_addCell_iff kept).1 h with rfl | hl
    · exact .inr ((data_addCell_new ..).1 ▸ bare)
    · exact .inl hl
  | attributes => exact .inl (hold (size_cells_modifyData ..))
  | demote => exact .inl (hold (size_cells_modifyData ..))
  | put => exact .inl (hold (sameFrame_putArc ..).count)
  | give => exact .inl ((live_surrender_iff hx.guarded).1 h).1
  | sever severed => exact .inl ((severed.live c).1 h).1
  | remove => exact .inl (live_remove_iff.1 h).1
  | _ => exact .inl h

/-- Without leave to write arcs, a vertex that has come still has none. -/
theorem Moves.degree_eq_zero (m : Moves D A x y) (hx : x.Ordered agree) (hA : ¬ A)
    (hnew : x.store.cells.size ≤ c) (h : y.store.Live c) : (y.store.data c).degree = 0 := by
  induction m with
  | refl => exact absurd h.1 (Nat.not_lt.2 hnew)
  | @tail z y hm m ih =>
    have hz := Moves.ordered hm hx
    have hy := m.ordered hz
    rcases m.live_or_bare hz h with hlive | hbare
    · refine (degree_eq_zero_iff hy.sound h).2 fun p hp htouch => ?_
      have hkey : y.store.keyOf c = z.store.keyOf c :=
        (Steps.extends (m.steps hz)).key c hlive.1
      exact (degree_eq_zero_iff hz.sound hlive).1 (ih hlive) p
        (Moves.arcs_subset m.moves hz hA p hp) (hkey ▸ htouch)
    · exact (hy.sound.paired.bare_iff h).2 hbare

end Arcbase
