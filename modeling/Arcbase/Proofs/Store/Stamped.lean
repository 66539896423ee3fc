import Arcbase.Proofs.Store.Sweeping
set_option autoImplicit false

/-!
# Stamps

A vertex is *stamped* when the time of a change becomes the time of its last one.  A store
with stamps is one in which every vertex that changed carries the time, be it that its own
attributes changed or that some arc on either side of it did (`Stamped`).

Two sorts of change may go without a stamp, and the vertices to which they may happen are
parameters: in `T` are those that may get a type, in `L` those that may lose arcs to
themselves.  Steps change nothing around a vertex that they do not write, so that only the
vertices they write have to be looked at (`stamped_of_steps`).
-/

namespace Arcbase.Store

variable {W : CellId → Prop} {agree : Agreement} {s s' s'' : Store}

/-! ## What steps leave alone -/

/-- A step brings no vertex back. -/
theorem Step.live_of_live (st : Step W s s') {c : CellId} (hlt : c < s.cells.size)
    (hl : s'.Live c) : s.Live c := by
  cases st with
  | locks => exact hl
  | labels => exact hl
  | schedule => exact hl
  | attributes _ keeps => exact (keeps.sameFrame s _).live_iff.1 hl
  | add _ _ kept => exact ((live_addCell_iff kept).1 hl).resolve_left (Nat.ne_of_lt hlt)
  | remove => exact (live_remove_iff.1 hl).1
  | put => exact (sameFrame_putArc ..).live_iff.1 hl
  | detach => exact ((sameFrame_detach ..).trans (sameFrame_of_cells rfl rfl)).live_iff.1 hl

theorem Steps.live_of_live (st : Steps W s s') {c : CellId} (hlt : c < s.cells.size)
    (hl : s'.Live c) : s.Live c := by
  induction st with
  | refl => exact hl
  | tail hst st ih =>
    exact ih (st.live_of_live (Nat.lt_of_lt_of_le hlt (Steps.extends hst).count) hl)

/-- A vertex that has been taken out has no arcs. -/
theorem Step.out_eq_empty (st : Step W s s') (hs : s.Sound agree) {c : CellId}
    (hlt : c < s.cells.size) (h : s.Live c ∨ (s.data c).out = .empty) :
    s'.Live c ∨ (s'.data c).out = .empty := by
  have hlive : s.SameFrame s' → (∀ v, (s'.data v).out = (s.data v).out) →
      s'.Live c ∨ (s'.data c).out = .empty := fun hframe hout => by
    rw [hframe.live_iff, hout]
    exact h
  cases st with
  | locks => exact h
  | labels => exact h
  | schedule => exact h
  | attributes _ keeps =>
    refine hlive (keeps.sameFrame s _) fun v => ?_
    rw [data_modifyData_ite]
    split
    · exact (keeps _).1
    · rfl
  | add _ _ kept =>
    refine h.imp (fun hl => (live_addCell_iff kept).2 (.inr hl)) fun hout => ?_
    rw [data, cell_addCell, if_neg (Nat.ne_of_lt hlt)]
    exact hout
  | @remove v _ live bare =>
    by_cases hvc : v = c
    · refine .inr ?_
      rw [data, cell_remove, cell_modifyData, if_pos ⟨hvc, live.1⟩]
      exact hvc ▸ ((hs.paired.bare_iff live).1 bare).out
    · rw [live_remove_iff, (data_remove_of_ne hvc).1]
      exact h.imp_left fun hl => ⟨hl, hvc⟩
  | @put i _ _ _ liveInitial liveTerminal =>
    by_cases hic : i = c
    · exact .inl ((sameFrame_putArc ..).live_iff.2 (hic ▸ liveInitial))
    · refine h.imp ((sameFrame_putArc ..).live_iff.2 ·) fun hout => ?_
      rw [data_putArc _ _ _ _ _ liveInitial.1 liveTerminal.1, dataWith]
      exact (if_neg hic).trans hout
  | @detach i _ _ _ _ _ liveInitial liveTerminal found =>
    by_cases hic : i = c
    · exact .inl ((sameFrame_detach ..).live_iff.2 (hic ▸ liveInitial))
    · refine h.imp ((sameFrame_detach ..).live_iff.2 ·) fun hout => ?_
      have hdata := data_detach liveInitial.1 liveTerminal.1 found c
      exact (congrArg VertexData.out hdata).trans ((if_neg hic).trans hout)

theorem Steps.out_eq_empty (st : Steps W s s') (hs : s.Sound agree) {c : CellId}
    (hc : s.Live c) : s'.Live c ∨ (s'.data c).out = .empty := by
  induction st with
  | refl => exact .inl hc
  | tail hst st ih =>
    exact st.out_eq_empty (Steps.sound hst hs)
      (Nat.lt_of_lt_of_le hc.1 (Steps.extends hst).count) ih

theorem arcIn?_putArc_of_ne {i t : CellId} (hi : s.Live i) (ht : s.Live t)
    (relationship : LabelCode) (kind : ArcKind) (forwardOnly : Bool) (u : ArcUpdate)
    (now : UInt32) {p : Place} (hne : s.keyOf t ≠ p.toward) :
    (s.putArc i t relationship kind forwardOnly u now).2.arcIn? p = s.arcIn? p := by
  rw [arcIn?, data_putArc _ _ _ _ _ hi.1 ht.1, dataWith, arcIn?]
  dsimp only
  split
  · rw [ArcIndex.get?_insert, if_neg fun e => hne e.1]
  · rfl

/-- No arc toward a vertex comes, goes or changes in a step that does not write it. -/
theorem Step.arcIn?_toward (st : Step W s s') (hs : s.Sound agree) {v : CellId} (hv : ¬ W v)
    (hl : s.Live v) {p : Place} (hp : p.toward = s.keyOf v) : s'.arcIn? p = s.arcIn? p := by
  have hne : ∀ {t : CellId}, W t → s.Live t → s.keyOf t ≠ p.toward := fun ht htl e =>
    hv (hs.placed.eq_of_key htl hl (e.trans hp) ▸ ht)
  cases st with
  | locks => rfl
  | labels => rfl
  | schedule => rfl
  | attributes _ keeps =>
    rw [arcIn?, data_modifyData_ite, arcIn?]
    split
    · rw [(keeps _).1]
    · rfl
  | add _ _ _ bare =>
    rw [arcIn?, data, cell_addCell, arcIn?]
    split
    next hnew =>
      have hnone : s.data p.cell = default := data_of_size_le (Nat.le_of_eq hnew.symm)
      rw [bare.out, hnone]
      rfl
    next => rfl
  | remove =>
    rw [arcIn?, data, cell_remove, cell_modifyData, arcIn?]
    split <;> rfl
  | put _ ownedTerminal liveInitial liveTerminal =>
    exact arcIn?_putArc_of_ne liveInitial liveTerminal _ _ _ _ _ (hne ownedTerminal liveTerminal)
  | detach _ ownedTerminal liveInitial liveTerminal found =>
    refine (arcIn?_detach (hs.paired.valid _ liveInitial).1 liveInitial liveTerminal found p).trans
      (if_neg fun hm => ?_)
    exact hne ownedTerminal liveTerminal (congrArg Place.toward (List.mem_singleton.1 hm)).symm

theorem Steps.arcIn?_toward (st : Steps W s s') (hs : s.Sound agree) {v : CellId} (hv : ¬ W v)
    (hl : s.Live v) {p : Place} (hp : p.toward = s.keyOf v) : s'.arcIn? p = s.arcIn? p := by
  induction st with
  | refl => rfl
  | tail hst st ih =>
    have hs' := Steps.sound hst hs
    have hkept := Steps.untouched hst hs.placed hv hl
    exact (st.arcIn?_toward hs' hv (hkept.live hs'.placed)
      (hp.trans (hkept.keyOf hs'.placed).symm)).trans ih

/-! ## Changes with and without a stamp -/

/-- A place for an arc from or to a vertex. -/
def Around (s : Store) (c : CellId) (p : Place) : Prop := p.cell = c ∨ p.toward = s.keyOf c

/-- A place for an arc from a vertex to itself. -/
def Loop (s : Store) (c : CellId) (p : Place) : Prop := p.cell = c ∧ p.toward = s.keyOf c

/-- A vertex has not been stamped, and neither its attributes nor the arcs around it have
changed; but if it is `typed` it may have got a type, and if it is `looped` it may have lost
arcs to itself. -/
structure Unstamped (typed looped : Prop) (s s' : Store) (c : CellId) : Prop where
  modified : (s'.data c).modified = (s.data c).modified
  manifestation : (s'.data c).manifestation = (s.data c).manifestation
  properties : (s'.data c).properties = (s.data c).properties
  vector : (s'.data c).vector = (s.data c).vector
  type : (s'.data c).type = (s.data c).type ∨ typed
  arcs : ∀ p, s.Around c p →
    s'.arcIn? p = s.arcIn? p ∨ looped ∧ s.Loop c p ∧ s'.arcIn? p = none
  inbound : ∀ n r k, (s'.data c).inbound.get? n r k = (s.data c).inbound.get? n r k ∨
    looped ∧ n = s.keyOf c ∧ (s'.data c).inbound.get? n r k = none
  forwardOnlyIn : (s'.data c).forwardOnlyIn = (s.data c).forwardOnlyIn ∨ looped

variable {typed looped : Prop} {c : CellId}

theorem Unstamped.of_data (hd : s'.data c = s.data c)
    (hp : ∀ p : Place, p.toward = s.keyOf c → s'.arcIn? p = s.arcIn? p) :
    Unstamped typed looped s s' c := by
  refine ⟨?_, ?_, ?_, ?_, .inl ?_, fun p hat => .inl ?_, fun n r k => .inl ?_, .inl ?_⟩
  all_goals try rw [hd]
  rcases hat with hcell | htoward
  · rw [arcIn?, hcell, hd, arcIn?, hcell]
  · exact hp p htoward

theorem Unstamped.trans (hk : s'.keyOf c = s.keyOf c) (h : Unstamped typed looped s s' c)
    (h' : Unstamped typed looped s' s'' c) : Unstamped typed looped s s'' c := by
  refine ⟨h'.modified.trans h.modified, h'.manifestation.trans h.manifestation,
    h'.properties.trans h.properties, h'.vector.trans h.vector, ?_, fun p hat => ?_,
    fun n r k => ?_, ?_⟩
  · rcases h'.type with e' | ht
    · exact h.type.imp_left e'.trans
    · exact .inr ht
  · rcases h'.arcs p (by rwa [Around, hk]) with e' | ⟨hl, hat', hnone⟩
    · rcases h.arcs p hat with e | ⟨hl, hat, hnone⟩
      · exact .inl (e'.trans e)
      · exact .inr ⟨hl, hat, e'.trans hnone⟩
    · exact .inr ⟨hl, by rwa [Loop, hk] at hat', hnone⟩
  · rcases h'.inbound n r k with e' | ⟨hl, hn, hnone⟩
    · rcases h.inbound n r k with e | ⟨hl, hn, hnone⟩
      · exact .inl (e'.trans e)
      · exact .inr ⟨hl, hn, e'.trans hnone⟩
    · exact .inr ⟨hl, hn.trans hk, hnone⟩
  · rcases h'.forwardOnlyIn with e' | hl
    · exact h.forwardOnlyIn.imp_left e'.trans
    · exact .inr hl

theorem Unstamped.mono {looped' : Prop} (h : Unstamped typed looped s s' c)
    (hl : looped → looped') : Unstamped typed looped' s s' c :=
  ⟨h.modified, h.manifestation, h.properties, h.vector, h.type,
    fun p hat => (h.arcs p hat).imp_right fun e => ⟨hl e.1, e.2⟩,
    fun n r k => (h.inbound n r k).imp_right fun e => ⟨hl e.1, e.2⟩,
    h.forwardOnlyIn.imp_right hl⟩

/-- Every vertex that is still there either carries the time or has not been stamped. -/
structure Stamped (now : UInt32) (T L : CellId → Prop) (s s' : Store) : Prop where
  cells : s.Extends s'
  live : ∀ c, c < s.cells.size → s'.Live c → s.Live c
  stamp : ∀ c, s.Live c → s'.Live c →
    (s'.data c).modified = now ∨ Unstamped (T c) (L c) s s' c

variable {now : UInt32} {T L : CellId → Prop}

theorem Stamped.trans (h : Stamped now T L s s') (h' : Stamped now T L s' s'') :
    Stamped now T L s s'' := by
  refine ⟨h.cells.trans h'.cells, fun c hc hl => h.live c hc (h'.live c ?_ hl),
    fun c hc hl => ?_⟩
  · exact Nat.lt_of_lt_of_le hc h.cells.count
  · have hmid : s'.Live c := h'.live c (Nat.lt_of_lt_of_le hc.1 h.cells.count) hl
    rcases h'.stamp c hmid hl with hnow | hunstamped'
    · exact .inl hnow
    · rcases h.stamp c hc hmid with hnow | hunstamped
      · exact .inl (hunstamped'.modified.trans hnow)
      · exact .inr (hunstamped.trans (h.cells.key c hc.1) hunstamped')

/-- A vertex that carries the time already may change in any way. -/
theorem Stamped.of_modified (h : Stamped now T (fun v => v = c ∨ L v) s s')
    (hnow : (s.data c).modified = now) : Stamped now T L s s' := by
  refine ⟨h.cells, h.live, fun v hv hl => ?_⟩
  rcases h.stamp v hv hl with hnow' | hsame
  · exact .inl hnow'
  · by_cases hvc : v = c
    · exact .inl (hsame.modified.trans (hvc ▸ hnow))
    · exact .inr (hsame.mono fun hl => hl.resolve_left hvc)

/-- Only the vertices that have been written need a stamp. -/
theorem stamped_of_steps (st : Steps W s s') (hs : s.Sound agree)
    (h : ∀ c, W c → s.Live c → s'.Live c →
      (s'.data c).modified = now ∨ Unstamped (T c) (L c) s s' c) : Stamped now T L s s' := by
  refine ⟨Steps.extends st, fun c hlt hl => Steps.live_of_live st hlt hl, fun c hc hl => ?_⟩
  by_cases hW : W c
  · exact h c hW hc hl
  · exact .inr (.of_data (Steps.data_eq st hW hc.1) fun p => Steps.arcIn?_toward st hs hW hc)

theorem stamped_of_cells (hc : s'.cells = s.cells) : Stamped now T L s s' := by
  have hdata : ∀ c, s'.data c = s.data c := fun c => by rw [data, cell, hc, data, cell]
  have hlive : ∀ c, s'.Live c ↔ s.Live c := fun c => by rw [Live, Live, hc, hdata]
  refine ⟨⟨by rw [hc], fun c _ => by rw [cell, hc, cell], fun c _ => by rw [cell, hc, cell]⟩,
    fun c _ => (hlive c).1, fun c _ _ => .inr (.of_data (hdata c) fun p _ => ?_)⟩
  rw [arcIn?, hdata, arcIn?]

theorem Stamped.refl (s : Store) : Stamped now T L s s := stamped_of_cells rfl

theorem stamped_less (s : Store) (k : Nat) : Stamped now T L s (s.less k) := stamped_of_cells rfl

theorem Stamped.of_less {k k' : Nat} (h : Stamped now T L (s.less k) (s'.less k')) :
    Stamped now T L s s' :=
  ((stamped_less s k).trans h).trans (stamped_of_cells rfl)

/-! ## Attributes -/

theorem arcIn?_modifyData {f : VertexData → VertexData} (hf : KeepsArcs f) (p : Place) :
    (s.modifyData c f).arcIn? p = s.arcIn? p := by
  rw [arcIn?, data_modifyData_ite, arcIn?]
  split
  · rw [(hf _).1]
  · rfl

/-- A change of attributes comes with the time, or changes at most a time of expiration and
the type. -/
theorem stamped_modifyData {f : VertexData → VertexData} (hs : s.Sound agree) (hf : KeepsArcs f)
    (h : (f (s.data c)).modified = now ∨
      (f (s.data c)).modified = (s.data c).modified ∧
      (f (s.data c)).manifestation = (s.data c).manifestation ∧
      (f (s.data c)).properties = (s.data c).properties ∧
      (f (s.data c)).vector = (s.data c).vector ∧
      ((f (s.data c)).type = (s.data c).type ∨ T c)) :
    Stamped now T L s (s.modifyData c f) := by
  refine stamped_of_steps (W := (c = ·)) (.single (.attributes rfl hf)) hs ?_
  rintro _ rfl hc -
  have hdata : (s.modifyData c f).data c = f (s.data c) := by
    rw [data_modifyData_ite, if_pos ⟨rfl, hc.1⟩]
  refine h.imp (hdata ▸ ·) fun ⟨hm, hman, hprops, hvec, htype⟩ => ?_
  refine ⟨hdata ▸ hm, hdata ▸ hman, hdata ▸ hprops, hdata ▸ hvec, hdata ▸ htype,
    fun p _ => .inl (arcIn?_modifyData hf p), fun n r k => .inl ?_, .inl ?_⟩
  · rw [hdata, (hf _).2.1]
  · rw [hdata, (hf _).2.2.1]

/-! ## Giving vertices up -/

theorem stamped_collectOrphan (hs : s.Sound agree) (c : CellId) :
    Stamped now T L s (s.collectOrphan c) := by
  by_cases hlt : c < s.cells.size
  · refine stamped_of_steps (W := (c = ·)) (steps_collectOrphan rfl hlt).1 hs ?_
    rintro _ rfl - hl
    have hkept : ¬ (s.data c).isOrphan = true := fun ho => by
      have hgone : ((s.collectOrphan c).data c).deleted = true := by
        rw [data_collectOrphan hlt, if_pos ⟨rfl, ho⟩]
      rw [hl.2] at hgone
      cases hgone
    rw [collectOrphan, if_neg hkept]
    exact .inr (.of_data rfl fun _ _ => rfl)
  · have hnone : (s.data c).isOrphan = false := by
      rw [data_of_size_le (Nat.le_of_not_lt hlt)]
      rfl
    rw [collectOrphan, hnone]
    exact .refl s

theorem stamped_drop (hs : s.Sound agree) (g : Guard) : Stamped now T L s (s.drop g) := by
  have hcollected : Stamped now T L s
      (if g.isWritable && s.locks.isOutermost g then s.collectOrphan g.item.slot else s) := by
    split
    · exact stamped_collectOrphan hs _
    · exact .refl s
  exact hcollected.trans (stamped_of_cells rfl)

theorem modified_drop (s : Store) (g : Guard) (c : CellId) :
    ((s.drop g).data c).modified = (s.data c).modified := by
  have hcollected : ∀ v, ((s.collectOrphan v).data c).modified = (s.data c).modified := by
    intro v
    rw [collectOrphan]
    split
    · rw [data, cell_remove, cell_modifyData]
      split <;> rfl
    · rfl
  rw [drop]
  split
  · exact hcollected _
  · rfl

/-! ## Taking arcs off -/

/-- A walk touches both ends of what it takes off, unless they are the same vertex. -/
theorem stamped_neighbor {who : Caller} {H : List Guard} {anchor neighbor : CellId} {k : Nat}
    {arcs : List (Direction × StoredArc)} {g : Guard} {t : LockTable}
    (hs : (s.less k).Sound agree) (hg : s.Guarded H) (ha : s.Live anchor) (hn : s.Live neighbor)
    (hne : neighbor ≠ anchor)
    (hacq : s.locks.acquire who.thread (s.lockItem neighbor) .writable = .ok (g, t)) :
    Stamped who.now T L s
      ((((detachAll anchor neighbor arcs { s with locks := t }).2.modifyData anchor
        (·.touch who.now)).modifyData neighbor (·.touch who.now)).drop g) := by
  have hsevered : Severed who.thread H anchor (arcs.map (s.placeOf anchor neighbor)) [neighbor] k
      _ s _ := severed_neighbor hs hg ha hn hne hacq
  have hs₁ : Sound agree (less { s with locks := t } k) := hs.withLocks t
  have hframe := (cut_detachAll (W := fun _ => True) hs₁ trivial trivial ha hn arcs).frame
  generalize (detachAll anchor neighbor arcs { s with locks := t }).2 = s₁ at hsevered hframe ⊢
  refine .of_less (stamped_of_steps hsevered.steps hs fun c hW _ _ => .inl ?_)
  change ((((s₁.modifyData anchor _).modifyData neighbor _).drop g).data c).modified = _
  rw [modified_drop, data_modifyData_ite, data_modifyData_ite, size_cells_modifyData]
  have hsize : s₁.cells.size = s.cells.size := hframe.count
  rcases hW with rfl | hmem
  · split
    · rfl
    · rw [if_pos ⟨rfl, hsize ▸ ha.1⟩]
      rfl
  · obtain rfl := List.mem_singleton.1 hmem
    rw [if_pos ⟨rfl, hsize ▸ hn.1⟩]
    rfl

/-- An arc from a vertex to itself is taken off without a stamp. -/
theorem unstamped_detach (hl : looped) (hv : (s.data c).out.Valid ∧ (s.data c).inbound.Valid)
    (hc : s.Live c) (arc : StoredArc) : Unstamped typed looped s (s.detach c c arc).2 c := by
  cases hfound : s.arcAt? c c arc.relationship arc.kind with
  | none =>
    rw [detach_of_vacant hfound]
    exact .of_data rfl fun _ _ => rfl
  | some removed =>
    have hdata := data_detach hc.1 hc.1 hfound c
    refine ⟨?_, ?_, ?_, ?_, .inl ?_, fun p _ => ?_, fun n r k => ?_, .inr hl⟩
    all_goals try rw [hdata, dataWithout]
    · rw [arcIn?_detach hv.1 hc hc hfound]
      split
      next hp =>
        obtain rfl := List.mem_singleton.1 hp
        exact .inr ⟨hl, ⟨rfl, rfl⟩, rfl⟩
      next => exact .inl rfl
    · dsimp only
      split
      · rw [ArcIndex.get?_remove hv.2]
        split
        next hslot => exact .inr ⟨hl, hslot.1.symm, rfl⟩
        next => exact .inl rfl
      · exact .inl rfl

theorem unstamped_detachAll (hl : looped) {k : Nat} (hs : (s.less k).Sound agree) (hc : s.Live c)
    (arcs : List (Direction × StoredArc)) :
    Unstamped typed looped s (detachAll c c arcs s).2 c := by
  induction arcs generalizing s k with
  | nil => exact .of_data rfl fun _ _ => rfl
  | cons seen rest ih =>
    obtain ⟨direction, arc⟩ := seen
    have hcut := cut_detach (W := fun _ => True) hs trivial trivial hc hc arc
    have hrest := ih (Steps.sound hcut.steps hs) (hcut.frame.live_iff.2 hc)
    have hvalid : (s.data c).out.Valid ∧ (s.data c).inbound.Valid := hs.paired.valid c hc
    simp only [detachAll, ite_self]
    exact (unstamped_detach hl hvalid hc arc).trans (hcut.frame.key c) hrest

variable {who : Caller} {H : List Guard} {anchor : CellId}

theorem stamped_detachAll {k : Nat} (hs : (s.less k).Sound agree) (hc : s.Live c) (hL : L c)
    (arcs : List (Direction × StoredArc)) : Stamped now T L s (detachAll c c arcs s).2 := by
  have hcut := cut_detachAll (W := (c = ·)) hs rfl rfl hc hc arcs
  refine .of_less (stamped_of_steps hcut.steps hs ?_)
  rintro _ rfl - -
  have h : Unstamped (T c) (L c) s (detachAll c c arcs s).2 c := unstamped_detachAll hL hs hc arcs
  exact .inr ⟨h.modified, h.manifestation, h.properties, h.vector, h.type, h.arcs, h.inbound,
    h.forwardOnlyIn⟩

theorem stamped_severGroup {group : Group} {r : Removal} (hs : (s.less r.removed).Sound agree)
    (hg : s.Guarded H) (ha : s.Live anchor) (hL : group.1 = s.keyOf anchor → L anchor) :
    Stamped who.now T L s (severGroup who anchor group.1 group.2 r s).2 := by
  have hplaced : s.Placed := ⟨hs.placed.lookup, hs.placed.keyed⟩
  unfold severGroup
  split
  next hself => exact stamped_detachAll hs ha (hL hself) group.2
  next hother =>
    split
    · exact .refl s
    next neighbor hfound =>
      split
      · exact .refl s
      next g locks hacq =>
        have hne : neighbor ≠ anchor := fun e => hother (e ▸ (hplaced.key_of_lookup hfound).symm)
        exact stamped_neighbor hs hg ha (hplaced.live_of_lookup hfound) hne hacq

/-- After each group the store is in order, but for the count. -/
theorem sound_severGroup {group : Group} {r : Removal} (hs : (s.less r.removed).Sound agree)
    (hg : s.Guarded H) (ha : s.Live anchor) {r' : Removal}
    (hrun : severGroup who anchor group.1 group.2 r s = (r', s')) :
    (s'.less r'.removed).Sound agree ∧ s'.Guarded H ∧ s'.Live anchor := by
  cases hbusy : s.obstructed who.thread anchor group.1 with
  | true =>
    obtain ⟨cause, hsame⟩ := severGroup_obstructed who r hbusy
    obtain ⟨rfl, rfl⟩ := Prod.mk.inj (hsame.symm.trans hrun)
    exact ⟨hs, hg, ha⟩
  | false =>
    cases hfound : s.lookupKey group.1 with
    | none =>
      have hother : ¬ group.1 = (s.cell anchor).key := fun e => by
        have hself : s.lookupKey (s.cell anchor).key = some anchor := hs.placed.lookup_key ha
        rw [← e, hfound] at hself
        cases hself
      simp only [severGroup, if_neg hother, hfound] at hrun
      obtain ⟨rfl, rfl⟩ := Prod.mk.inj hrun
      exact ⟨hs, hg, ha⟩
    | some c =>
      obtain ⟨n, hr, hsevered⟩ := severGroup_clear who hs hg ha hfound hbusy
      rw [hrun] at hr hsevered
      dsimp only at hr hsevered
      subst hr
      exact ⟨Steps.sound hsevered.steps hs, hsevered.guarded, hsevered.live_anchor ha⟩

/-- A walk stamps every vertex from which it takes an arc, but for the anchor that loses only
arcs to itself. -/
theorem stamped_severGroups {groups : List Group} {r : Removal}
    (hs : (s.less r.removed).Sound agree) (hg : s.Guarded H) (ha : s.Live anchor)
    (hL : ∀ group ∈ groups, group.1 = s.keyOf anchor → L anchor) :
    Stamped who.now T L s (severGroups who anchor groups r s).2 := by
  induction groups generalizing s r with
  | nil => exact .refl s
  | cons group rest ih =>
    have hfirst : Stamped who.now T L s (severGroup who anchor group.1 group.2 r s).2 :=
      stamped_severGroup hs hg ha (hL group List.mem_cons_self)
    cases hrun : severGroup who anchor group.1 group.2 r s with
    | mk r₁ s₁ =>
      rw [hrun] at hfirst
      obtain ⟨hs₁, hg₁, ha₁⟩ := sound_severGroup hs hg ha hrun
      have hkey : s₁.keyOf anchor = s.keyOf anchor := hfirst.cells.key anchor ha.1
      rw [severGroups_cons hrun]
      exact hfirst.trans (ih hs₁ hg₁ ha₁ fun g hm e =>
        hL g (List.mem_cons_of_mem group hm) (e.trans hkey))

end Arcbase.Store
