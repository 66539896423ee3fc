import Arcbase.Proofs.Store.Severing
import Arcbase.Proofs.Store.Slots
import Arcbase.Proofs.Store.Sweeping
set_option autoImplicit false

/-!
# Giving up several guards

Who gives up several writable guards takes out the virtual vertices without arcs among those
that nobody holds any more (`live_dropAll_iff`).  All that is left is as it was
(`cell_dropAll`), so that no slot has changed (`sameArcs_dropAll`).
-/

namespace Arcbase.Store

variable {agree : Agreement} {s : Store} {G new : List Guard} {c : CellId}

theorem sameDates_dropAll (s : Store) (guards : List Guard) : s.SameDates (s.dropAll guards) := by
  induction guards generalizing s with
  | nil => exact .refl s
  | cons g rest ih => exact (sameDates_drop s g).trans (ih (s.drop g))

theorem size_dropAll (s : Store) (guards : List Guard) : (s.dropAll guards).size = s.size := by
  induction guards generalizing s with
  | nil => rfl
  | cons g rest ih => exact (ih (s.drop g)).trans (size_drop s g)

theorem config_drop (s : Store) (g : Guard) : (s.drop g).config = s.config := by
  have hremove : ∀ (s : Store) (c : CellId), (s.collectOrphan c).config = s.config := by
    intro s c
    unfold collectOrphan
    split
    · unfold remove unlink
      dsimp only
      split <;> rfl
    · rfl
  unfold drop
  dsimp only
  split
  · exact hremove s g.item.slot
  · rfl

theorem config_dropAll (s : Store) (guards : List Guard) :
    (s.dropAll guards).config = s.config := by
  induction guards generalizing s with
  | nil => rfl
  | cons g rest ih => exact (ih (s.drop g)).trans (config_drop s g)

theorem sound_dropAll (hs : s.Sound agree) (guards : List Guard) :
    (s.dropAll guards).Sound agree := by
  induction guards generalizing s with
  | nil => exact hs
  | cons g rest ih => exact ih (sound_drop hs g)

/-- A vertex is an orphan once some guards are given up, and others are left. -/
structure Dropped (new G : List Guard) (s : Store) (c : CellId) : Prop where
  held : ∃ g ∈ new, g.item.slot = c
  unheld : Guard.onSlot c G = []
  manifestation : (s.data c).manifestation = .virtual
  degree : (s.data c).degree = 0

/-- The guard that is given up first makes an orphan if none of the others is on its vertex. -/
theorem dropped_cons_iff {g : Guard} (hg : s.Guarded (g :: (new ++ G))) (hw : g.hold = .writer) :
    Dropped (g :: new) G s c ↔
      g.item.slot = c ∧ Guard.onSlot c (new ++ G) = [] ∧
          (s.data c).manifestation = .virtual ∧ (s.data c).degree = 0 ∨
        Dropped new G (s.drop g) c := by
  obtain ⟨_, _, _, hmanifestation⟩ := fields_drop hg hw c
  have hdegree := degree_drop hg hw c
  have hnone : Guard.onSlot c (new ++ G) = [] ↔
      (¬ ∃ g ∈ new, g.item.slot = c) ∧ Guard.onSlot c G = [] := by
    rw [Guard.onSlot, List.filter_append, List.append_eq_nil_iff, List.filter_eq_nil_iff]
    simp [Guard.onSlot]
  constructor
  · rintro ⟨⟨g', hm, hslot⟩, hunheld, hvirtual, hbare⟩
    by_cases hlater : ∃ g ∈ new, g.item.slot = c
    · exact .inr ⟨hlater, hunheld, hmanifestation.trans hvirtual, hdegree.trans hbare⟩
    · rcases List.mem_cons.1 hm with rfl | hm
      · exact .inl ⟨hslot, hnone.2 ⟨hlater, hunheld⟩, hvirtual, hbare⟩
      · exact absurd ⟨g', hm, hslot⟩ hlater
  · rintro (⟨hslot, hunheld, hvirtual, hbare⟩ | ⟨⟨g', hm, hslot⟩, hunheld, hvirtual, hbare⟩)
    · exact ⟨⟨g, List.mem_cons_self, hslot⟩, (hnone.1 hunheld).2, hvirtual, hbare⟩
    · exact ⟨⟨g', List.mem_cons_of_mem g hm, hslot⟩, hunheld, hmanifestation.symm.trans hvirtual,
        hdegree.symm.trans hbare⟩

theorem live_dropAll_iff (hg : s.Guarded (new ++ G)) (hw : ∀ g ∈ new, g.hold = .writer) :
    (s.dropAll new).Live c ↔ s.Live c ∧ ¬ Dropped new G s c := by
  induction new generalizing s with
  | nil => exact ⟨fun h => ⟨h, fun ho => by simpa using ho.held⟩, And.left⟩
  | cons g rest ih =>
    have hwriter := hw g List.mem_cons_self
    have hrest : (s.drop g).Guarded (rest ++ G) :=
      (drop_spec (W := fun _ => True) hg fun _ => trivial).2
    have hg' : s.Guarded (g :: (rest ++ G)) := hg
    change ((s.drop g).dropAll rest).Live c ↔ _
    rw [ih hrest fun g' hm => hw g' (List.mem_cons_of_mem g hm), live_drop_iff hg' hwriter,
      dropped_cons_iff hg' hwriter, not_or, and_assoc]

theorem cell_drop {g : Guard} (hg : s.Guarded (g :: G)) (hw : g.hold = .writer)
    (hc : (s.drop g).Live c) : (s.drop g).cell c = s.cell c := by
  have hlive := ((live_drop_iff hg hw).1 hc).1
  have hextends : s.Extends (s.drop g) :=
    Steps.extends (drop_spec (W := fun _ => True) hg fun _ => trivial).1
  have hdata : ((s.drop g).cell c).data = (s.cell c).data := by
    have hdrop := data_drop hg hw c
    split at hdrop
    · exact absurd (hc.2.symm.trans (congrArg VertexData.deleted hdrop)) Bool.false_ne_true
    · exact hdrop
  have hid := hextends.id c hlive.1
  have hkey := hextends.key c hlive.1
  cases hcell : s.cell c
  cases hcell' : (s.drop g).cell c
  rw [hcell, hcell'] at hid hkey hdata
  exact Cell.mk.injEq .. ▸ ⟨hid, hkey, hdata⟩

/-- A vertex that is left is as it was. -/
theorem cell_dropAll (hg : s.Guarded (new ++ G)) (hw : ∀ g ∈ new, g.hold = .writer)
    (hc : (s.dropAll new).Live c) : (s.dropAll new).cell c = s.cell c := by
  induction new generalizing s with
  | nil => rfl
  | cons g rest ih =>
    have hwriter := hw g List.mem_cons_self
    have hlater : ∀ g' ∈ rest, g'.hold = .writer := fun g' hm => hw g' (List.mem_cons_of_mem g hm)
    have hrest : (s.drop g).Guarded (rest ++ G) :=
      (drop_spec (W := fun _ => True) hg fun _ => trivial).2
    exact (ih hrest hlater hc).trans
      (cell_drop hg hwriter ((live_dropAll_iff hrest hlater).1 hc).1)

theorem sameArcs_dropAll (hs : s.Sound agree) (hg : s.Guarded (new ++ G))
    (hw : ∀ g ∈ new, g.hold = .writer) : s.SameArcs (s.dropAll new) := by
  have hcell : ∀ {c}, (s.dropAll new).Live c → (s.dropAll new).cell c = s.cell c :=
    fun hc => cell_dropAll hg hw hc
  refine ⟨(sameDates_dropAll s new).labels, fun c _ hc => by rw [hcell hc],
    fun c _ hc => by rw [data, hcell hc, data], fun c _ hc => by rw [data, hcell hc, data],
    fun c hc hgone => ?_, fun c hc hnew => absurd ((live_dropAll_iff hg hw).1 hc).1 hnew⟩
  have ho : Dropped new G s c := Classical.byContradiction fun ho =>
    hgone ((live_dropAll_iff hg hw).2 ⟨hc, ho⟩)
  exact (hs.paired.bare_iff hc).1 ho.degree

end Arcbase.Store
