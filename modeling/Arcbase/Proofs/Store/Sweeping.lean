import Arcbase.Proofs.Store.Listing
import Arcbase.Proofs.Store.Severing
set_option autoImplicit false

/-!
# Sweeping a graph

A sweep takes arcs and vertices away and adds none.  Which ones it may take away is told
by two parameters: it deletes the vertices in `V`, with all arcs around them, and empties
the places in `A` (`Swept`).  Any other vertex that it takes out was virtual.

A removal leaves alone whatever of a vertex its arcs do not enter into (`SameReading`), and
so everything that tells when something expires (`SameDates`).
-/

namespace Arcbase.Store

variable {s s' s'' : Store}

/-! ## What a removal leaves alone -/

/-- A reading of a vertex into which neither its arcs enter, nor the time of its last change,
nor the mark of what has been taken out. -/
structure Slotless {β : Type} (f : VertexData → β) : Prop where
  out : ∀ d out, f { d with out } = f d
  inbound : ∀ d inbound, f { d with inbound } = f d
  forwardOnlyIn : ∀ d forwardOnlyIn, f { d with forwardOnlyIn } = f d
  modified : ∀ d modified, f { d with modified } = f d
  deleted : ∀ d deleted, f { d with deleted } = f d

/-- Labels and schedule are as before, no cell has come, and a reading of every vertex is
what it was. -/
structure SameReading {β : Type} (f : VertexData → β) (s s' : Store) : Prop where
  labels : s'.labels = s.labels
  schedule : s'.schedule = s.schedule
  count : s'.cells.size = s.cells.size
  reading : ∀ c, f (s'.data c) = f (s.data c)

section Reading

variable {β : Type} {f : VertexData → β}

theorem sameReading_of_cells (hc : s'.cells = s.cells) (hl : s'.labels = s.labels)
    (hq : s'.schedule = s.schedule) : SameReading f s s' :=
  ⟨hl, hq, by rw [hc], fun c => by rw [data, cell, hc, data, cell]⟩

theorem SameReading.refl (s : Store) : SameReading f s s := sameReading_of_cells rfl rfl rfl

theorem SameReading.trans (h : SameReading f s s') (h' : SameReading f s' s'') :
    SameReading f s s'' :=
  ⟨h'.labels.trans h.labels, h'.schedule.trans h.schedule, h'.count.trans h.count,
    fun c => (h'.reading c).trans (h.reading c)⟩

theorem sameReading_modifyData (s : Store) (c : CellId) {u : VertexData → VertexData}
    (hu : ∀ d, f (u d) = f d) : SameReading f s (s.modifyData c u) := by
  refine ⟨rfl, rfl, size_cells_modifyData s c u, fun c' => ?_⟩
  rw [data_modifyData_ite]
  split
  · exact hu _
  · rfl

variable (hf : Slotless f)
include hf

theorem sameReading_remove (s : Store) (c : CellId) : SameReading f s (s.remove c) := by
  have hdeleted : SameReading f s (s.modifyData c fun d => { d with deleted := true }) :=
    sameReading_modifyData s c fun d => hf.deleted d true
  refine hdeleted.trans ?_
  rw [remove, unlink]
  split
  · exact sameReading_of_cells rfl rfl rfl
  · exact .refl _

theorem sameReading_collectOrphan (s : Store) (c : CellId) :
    SameReading f s (s.collectOrphan c) := by
  rw [collectOrphan]
  split
  · exact sameReading_remove hf s c
  · exact .refl s

theorem sameReading_drop (s : Store) (g : Guard) : SameReading f s (s.drop g) := by
  have hcollected : SameReading f s
      (if g.isWritable && s.locks.isOutermost g then s.collectOrphan g.item.slot else s) := by
    split
    · exact sameReading_collectOrphan hf s _
    · exact .refl s
  exact hcollected.trans (sameReading_of_cells rfl rfl rfl)

theorem sameReading_detach (s : Store) (i t : CellId) (arc : StoredArc) :
    SameReading f s (s.detach i t arc).2 := by
  cases h : s.arcAt? i t arc.relationship arc.kind with
  | none =>
    rw [detach_of_vacant h]
    exact .refl s
  | some removed =>
    rw [detach_of_arcAt? h]
    have hout : SameReading f s (s.takeOut i (s.cell t).key removed) :=
      sameReading_modifyData s i fun d => hf.out d _
    refine hout.trans ?_
    dsimp only [takeInward]
    split
    · exact sameReading_modifyData _ t fun d => hf.forwardOnlyIn d _
    · exact sameReading_modifyData _ t fun d => hf.inbound d _

theorem sameReading_detachAll (anchor neighbor : CellId) (arcs : List (Direction × StoredArc))
    (s : Store) : SameReading f s (detachAll anchor neighbor arcs s).2 := by
  induction arcs generalizing s with
  | nil => exact .refl s
  | cons seen rest ih =>
    obtain ⟨direction, arc⟩ := seen
    simp only [detachAll]
    split
    · exact (sameReading_detach hf s neighbor anchor arc).trans (ih _)
    · exact (sameReading_detach hf s anchor neighbor arc).trans (ih _)

theorem sameReading_severGroup (who : Caller) (anchor : CellId) (key : VertexKey)
    (arcs : List (Direction × StoredArc)) (r : Removal) (s : Store) :
    SameReading f s (severGroup who anchor key arcs r s).2 := by
  unfold severGroup
  split
  · exact sameReading_detachAll hf anchor anchor arcs s
  · split
    · exact .refl s
    · split
      · exact .refl s
      next neighbor _ _ g locks _ =>
        have hlocks : SameReading f s { s with locks } := sameReading_of_cells rfl rfl rfl
        have htouch : ∀ d : VertexData, f (d.touch who.now) = f d := fun d => hf.modified d _
        exact (((hlocks.trans (sameReading_detachAll hf anchor neighbor arcs _)).trans
          (sameReading_modifyData _ anchor htouch)).trans
            (sameReading_modifyData _ neighbor htouch)).trans (sameReading_drop hf _ g)

theorem sameReading_severGroups (who : Caller) (anchor : CellId) (groups : List Group)
    (r : Removal) (s : Store) : SameReading f s (severGroups who anchor groups r s).2 := by
  induction groups generalizing r s with
  | nil => exact .refl s
  | cons group rest ih =>
    exact (sameReading_severGroup hf who anchor group.1 group.2 r s).trans (ih _ _)

end Reading

/-- Labels and schedule are as before, no cell has come, and every vertex expires when it
did. -/
structure SameDates (s s' : Store) : Prop where
  labels : s'.labels = s.labels
  schedule : s'.schedule = s.schedule
  count : s'.cells.size = s.cells.size
  expires : ∀ c, (s'.data c).expires = (s.data c).expires

theorem slotless_expires : Slotless VertexData.expires :=
  ⟨fun _ _ => rfl, fun _ _ => rfl, fun _ _ => rfl, fun _ _ => rfl, fun _ _ => rfl⟩

theorem SameReading.sameDates (h : SameReading VertexData.expires s s') : s.SameDates s' :=
  ⟨h.labels, h.schedule, h.count, h.reading⟩

theorem sameDates_of_cells (hc : s'.cells = s.cells) (hl : s'.labels = s.labels)
    (hq : s'.schedule = s.schedule) : s.SameDates s' := (sameReading_of_cells hc hl hq).sameDates

theorem SameDates.refl (s : Store) : s.SameDates s := sameDates_of_cells rfl rfl rfl

theorem SameDates.trans (h : s.SameDates s') (h' : s'.SameDates s'') : s.SameDates s'' :=
  ⟨h'.labels.trans h.labels, h'.schedule.trans h.schedule, h'.count.trans h.count,
    fun c => (h'.expires c).trans (h.expires c)⟩

theorem sameDates_modifyData (s : Store) (c : CellId) {f : VertexData → VertexData}
    (hf : ∀ d, (f d).expires = d.expires) : s.SameDates (s.modifyData c f) :=
  (sameReading_modifyData s c hf).sameDates

theorem sameDates_remove (s : Store) (c : CellId) : s.SameDates (s.remove c) :=
  (sameReading_remove slotless_expires s c).sameDates

theorem sameDates_collectOrphan (s : Store) (c : CellId) : s.SameDates (s.collectOrphan c) :=
  (sameReading_collectOrphan slotless_expires s c).sameDates

theorem sameDates_drop (s : Store) (g : Guard) : s.SameDates (s.drop g) :=
  (sameReading_drop slotless_expires s g).sameDates

/-! ## Sweeps -/

/-- A place that a sweep may empty. -/
def Spent (V : CellId → Prop) (A : Place → Prop) (s : Store) (p : Place) : Prop :=
  A p ∨ ∃ c, s.Live c ∧ V c ∧ (c = p.cell ∨ s.keyOf c = p.toward)

/-- Arcs and vertices have been taken away: the vertices in `V` with the arcs around them,
the arcs in `A`, and virtual vertices. -/
structure Swept (V : CellId → Prop) (A : Place → Prop) (s s' : Store) : Prop where
  cells : s.Extends s'
  labels : s'.labels = s.labels
  live : ∀ c, s'.Live c → s.Live c
  kept : ∀ c, s'.Live c → V c ∨
    (s'.data c).manifestation = (s.data c).manifestation ∧ (s'.data c).expires = (s.data c).expires
  gone : ∀ c, s.Live c → s'.Live c ∨ V c ∨ (s.data c).manifestation = .virtual
  places : ∀ p, s'.arcIn? p = s.arcIn? p ∨ s'.arcIn? p = none ∧ s.Spent V A p
  emptied : ∀ p, s.Live p.cell → s'.Live p.cell ∨ s'.arcIn? p = none

variable {V : CellId → Prop} {A : Place → Prop} {agree : Agreement} {G : List Guard}

theorem swept_of_cells (hc : s'.cells = s.cells) (hl : s'.labels = s.labels) :
    Swept V A s s' := by
  have hdata : ∀ c, s'.data c = s.data c := fun c => by rw [data, cell, hc, data, cell]
  have hlive : ∀ c, s'.Live c ↔ s.Live c := fun c => by rw [Live, Live, hc, hdata]
  refine ⟨⟨by rw [hc], fun c _ => by rw [cell, hc, cell], fun c _ => by rw [cell, hc, cell]⟩, hl,
    fun c => (hlive c).1, fun c _ => .inr ?_, fun c h => .inl ((hlive c).2 h), fun p => .inl ?_,
    fun p h => .inl ((hlive _).2 h)⟩
  · rw [hdata]
    exact ⟨rfl, rfl⟩
  · rw [arcIn?, arcIn?, hdata]

theorem Swept.refl (s : Store) : Swept V A s s := swept_of_cells rfl rfl

theorem Swept.trans (h : Swept V A s s') (h' : Swept V A s' s'') : Swept V A s s'' := by
  refine ⟨h.cells.trans h'.cells, h'.labels.trans h.labels, fun c hc => h.live c (h'.live c hc),
    fun c hc => ?_, fun c hc => ?_, fun p => ?_, fun p hp => ?_⟩
  · rcases h'.kept c hc with hV | hkept'
    · exact .inl hV
    · refine (h.kept c (h'.live c hc)).imp_right fun hkept => ?_
      exact ⟨hkept'.1.trans hkept.1, hkept'.2.trans hkept.2⟩
  · rcases h.gone c hc with hl | hgone
    · rcases h'.gone c hl with hl' | hV | hvirtual
      · exact .inl hl'
      · exact .inr (.inl hV)
      · exact .inr ((h.kept c hl).imp_right fun hkept => hkept.1.symm.trans hvirtual)
    · exact .inr hgone
  · rcases h'.places p with hsame | ⟨hnone, hspent⟩
    · rw [hsame]
      exact h.places p
    · refine .inr ⟨hnone, hspent.imp_right ?_⟩
      rintro ⟨c, hc, hV, hat⟩
      have hlive := h.live c hc
      exact ⟨c, hlive, hV, hat.imp_right ((h.cells.key c hlive.1).symm.trans ·)⟩
  · rcases h.emptied p hp with hl | hnone
    · exact h'.emptied p hl
    · refine .inr ((h'.places p).elim (fun hsame => hsame.trans hnone) And.left)

theorem swept_modifyData {c : CellId} {f : VertexData → VertexData} (hf : KeepsArcs f)
    (hkept : V c ∨ ∀ d, (f d).manifestation = d.manifestation ∧ (f d).expires = d.expires) :
    Swept V A s (s.modifyData c f) := by
  have hframe := hf.sameFrame s c
  refine ⟨hframe.extends, rfl, fun c' => hframe.live_iff.1, fun c' _ => ?_,
    fun c' h => .inl (hframe.live_iff.2 h), fun p => .inl ?_, fun p h => .inl (hframe.live_iff.2 h)⟩
  · rw [data_modifyData_ite]
    split
    next hc => exact hkept.imp (fun hV => hc.1 ▸ hV) fun hkept => hkept _
    next => exact .inr ⟨rfl, rfl⟩
  · rw [arcIn?, data_modifyData_ite, arcIn?]
    split
    · rw [(hf _).1]
    · rfl

theorem swept_remove {c : CellId} (hs : s.Sound agree) (hc : s.Live c) (hV : V c)
    (hbare : (s.data c).degree = 0) : Swept V A s (s.remove c) := by
  have hdata : ∀ c', (s.remove c).data c' =
      if c = c' then { s.data c' with deleted := true } else s.data c' := by
    intro c'
    rw [data, cell_remove, cell_modifyData]
    by_cases he : c = c'
    · rw [if_pos ⟨he, hc.1⟩, if_pos he]
    · rw [if_neg fun e => he e.1, if_neg he]
      rfl
  refine ⟨Step.extends (.remove (W := fun _ => True) trivial hc hbare),
    (sameDates_remove s c).labels, fun c' h => (live_remove_iff.1 h).1, fun c' h => ?_,
    fun c' h => ?_, fun p => .inl ?_, fun p h => ?_⟩
  · rw [hdata, if_neg (live_remove_iff.1 h).2]
    exact .inr ⟨rfl, rfl⟩
  · by_cases he : c = c'
    · exact .inr (.inl (he ▸ hV))
    · exact .inl (live_remove_iff.2 ⟨h, he⟩)
  · rw [arcIn?, hdata, arcIn?]
    split <;> rfl
  · by_cases he : c = p.cell
    · refine .inr ?_
      rw [arcIn?, hdata, if_pos he, ← he, ((hs.paired.bare_iff hc).1 hbare).out]
      rfl
    · exact .inl (live_remove_iff.2 ⟨h, he⟩)

theorem swept_drop {g : Guard} (hs : s.Sound agree) (hg : s.Guarded (g :: G))
    (hw : g.hold = .writer) : Swept V A s (s.drop g) := by
  have hout : ∀ p, (s.drop g).arcIn? p = s.arcIn? p := fun p => by
    rw [arcIn?, (fields_drop hg hw p.cell).1, arcIn?]
  have hgone : ∀ c, s.Live c → ¬ (s.drop g).Live c →
      (s.data c).manifestation = .virtual ∧ (s.data c).degree = 0 := by
    intro c hc hd
    rw [live_drop_iff hg hw] at hd
    exact (not_not.1 fun h => hd ⟨hc, h⟩).2.2
  refine ⟨Steps.extends (drop_spec (W := fun _ => True) hg fun _ => trivial).1,
    (sameDates_drop s g).labels, fun c h => ((live_drop_iff hg hw).1 h).1, fun c _ => .inr ?_,
    fun c hc => ?_, fun p => .inl (hout p), fun p hp => ?_⟩
  · exact ⟨(fields_drop hg hw c).2.2.2, (sameDates_drop s g).expires c⟩
  · by_cases hd : (s.drop g).Live c
    · exact .inl hd
    · exact .inr (.inr (hgone c hc hd).1)
  · by_cases hd : (s.drop g).Live p.cell
    · exact .inl hd
    · rw [hout, arcIn?, ((hs.paired.bare_iff hp).1 (hgone _ hp hd).2).out]
      exact .inr rfl

/-- A walk that empties only places that may be emptied. -/
theorem Severed.swept {me : Thread} {anchor : CellId} {gone : List Place} {freed : List CellId}
    {k k' : Nat} (h : Severed me G anchor gone freed k k' s s') (hd : s.SameDates s')
    (hgone : ∀ p ∈ gone, s.Spent V A p) : Swept V A s s' := by
  refine ⟨h.extends, hd.labels, fun c hc => ((h.live c).1 hc).1,
    fun c _ => .inr ⟨h.manifestation c, hd.expires c⟩, fun c hc => ?_, fun p => ?_, fun p hp => ?_⟩
  · by_cases hl : s'.Live c
    · exact .inl hl
    · rw [h.live, h.manifestation] at hl
      exact .inr (.inr (not_not.1 fun e => hl ⟨hc, e⟩).2.2.1)
  · rw [h.arcs]
    split
    next hp => exact .inr ⟨rfl, hgone p hp⟩
    next => exact .inl rfl
  · by_cases hl : s'.Live p.cell
    · exact .inl hl
    · rw [arcIn?, (h.bare p.cell hp hl).out]
      exact .inr rfl

/-! ## The arcs that are left -/

theorem mem_arcs_iff_arcIn? (hs : s.Sound agree) {p : PlacedArc} :
    p ∈ s.arcs ↔ ∃ i, s.Live i ∧ s.keyOf i = p.initial ∧
      s.arcIn? ⟨i, p.terminal, p.arc.relationship, p.arc.kind⟩ = some p.arc := by
  rw [mem_arcs_iff hs.placed]
  refine exists_congr fun i => and_congr_right fun hi => and_congr_right fun _ => ?_
  exact ArcIndex.mem_arcsTo_iff (hs.paired.valid i hi).1 _ _

theorem Swept.arcs_subset (h : Swept V A s s') (hs : s.Sound agree) (hs' : s'.Sound agree)
    {p : PlacedArc} (hp : p ∈ s'.arcs) : p ∈ s.arcs := by
  obtain ⟨i, hi, hk, hfound⟩ := (mem_arcs_iff_arcIn? hs').1 hp
  have hi₀ := h.live i hi
  refine (mem_arcs_iff_arcIn? hs).2 ⟨i, hi₀, (h.cells.key i hi₀.1).symm.trans hk, ?_⟩
  rcases h.places ⟨i, p.terminal, p.arc.relationship, p.arc.kind⟩ with hsame | ⟨hnone, _⟩
  · rw [← hsame, hfound]
  · rw [hfound] at hnone
    cases hnone

/-- An arc that is missing was in a place that might be emptied. -/
theorem Swept.spent (h : Swept V A s s') (hs : s.Sound agree) (hs' : s'.Sound agree)
    {p : PlacedArc} (hp : p ∈ s.arcs) (hp' : p ∉ s'.arcs) :
    ∃ i, s.Live i ∧ s.keyOf i = p.initial ∧
      s.Spent V A ⟨i, p.terminal, p.arc.relationship, p.arc.kind⟩ := by
  obtain ⟨i, hi, hk, hfound⟩ := (mem_arcs_iff_arcIn? hs).1 hp
  refine ⟨i, hi, hk, ?_⟩
  rcases h.places ⟨i, p.terminal, p.arc.relationship, p.arc.kind⟩ with hsame | ⟨_, hspent⟩
  · rw [hfound] at hsame
    refine absurd ((mem_arcs_iff_arcIn? hs').2 ⟨i, ?_, (h.cells.key i hi.1).trans hk, hsame⟩) hp'
    refine (h.emptied ⟨i, p.terminal, p.arc.relationship, p.arc.kind⟩ hi).resolve_right ?_
    rw [hsame]
    exact Option.some_ne_none p.arc
  · exact hspent

end Arcbase.Store
