import Arcbase.Proofs.Lock.Requests
import Arcbase.Proofs.Store.Guarded
set_option autoImplicit false

/-!
# Taking off the arcs around a vertex

A removal empties a list of places for arcs, and nothing else (`Cut`).  It walks the
groups of arcs neighbor by neighbor; whether a neighbor obstructs it depends only on
what is held when the walk begins, so that the places it empties are known from the
start (`severGroups_spec`).

The store counts its arcs only when the walk is over.  Until then it is the store
with as many arcs less as have been taken off that is in order.
-/

namespace Arcbase

/-- A place for an arc: the cell of its initial, the key of its terminal, and its slot. -/
structure Place where
  cell : CellId
  toward : VertexKey
  relationship : LabelCode
  kind : ArcKind
  deriving DecidableEq

namespace Store

variable {W : CellId → Prop} {agree : Agreement} {s s' : Store}

/-- The arc in a place. -/
def arcIn? (s : Store) (p : Place) : Option StoredArc :=
  (s.data p.cell).out.get? p.toward p.relationship p.kind

/-- The store with a number of arcs less. -/
def less (s : Store) (n : Nat) : Store := { s with size := s.size - n }

theorem detach_less (s : Store) (n : Nat) (i t : CellId) (arc : StoredArc) :
    (s.less n).detach i t arc = ((s.detach i t arc).1, (s.detach i t arc).2.less n) := by
  cases h : s.arcAt? i t arc.relationship arc.kind with
  | none =>
    have h' : (s.less n).arcAt? i t arc.relationship arc.kind = none := h
    rw [detach_of_vacant h, detach_of_vacant h']
  | some removed =>
    have h' : (s.less n).arcAt? i t arc.relationship arc.kind = some removed := h
    rw [detach_of_arcAt? h, detach_of_arcAt? h']
    simp only [takeInward]
    split <;> rfl

theorem unlink_less (s : Store) (n : Nat) (c : CellId) :
    (s.less n).unlink c = (s.unlink c).less n := by
  have hkey : (s.less n).lookupKey ((s.less n).cell c).key = s.lookupKey (s.cell c).key := rfl
  simp only [unlink, hkey]
  split <;> rfl

theorem collectOrphan_less (s : Store) (n : Nat) (c : CellId) :
    (s.less n).collectOrphan c = (s.collectOrphan c).less n := by
  have hdata : (s.less n).data c = s.data c := rfl
  simp only [collectOrphan, hdata]
  split
  · exact unlink_less (s.modifyData c fun d => { d with deleted := true }) n c
  · rfl

theorem drop_less (s : Store) (n : Nat) (g : Guard) :
    (s.less n).drop g = (s.drop g).less n := by
  have hlast : (s.less n).locks.isOutermost g = s.locks.isOutermost g := rfl
  simp only [drop, collectOrphan_less, hlast]
  split <;> rfl

theorem Guarded.less {G : List Guard} (h : s.Guarded G) (n : Nat) : (s.less n).Guarded G :=
  ⟨h.accounts, h.item⟩

/-! ## Emptying places -/

/-- No arc has come on the inbound side of a vertex. -/
def FewerInward (s s' : Store) : Prop :=
  ∀ c n, (s'.data c).inbound.arcsTo n ⊆ (s.data c).inbound.arcsTo n

theorem FewerInward.trans {s'' : Store} (h : s.FewerInward s') (h' : s'.FewerInward s'') :
    s.FewerInward s'' := fun c n => List.Subset.trans (h' c n) (h c n)

theorem fewerInward_of_eq (h : ∀ c, (s'.data c).inbound = (s.data c).inbound) :
    s.FewerInward s' := fun c n => by
  rw [h]
  exact List.Subset.refl _

/-- Some places have been emptied, `k` arcs being uncounted before and `k'` after. -/
structure Cut (W : CellId → Prop) (gone : List Place) (k k' : Nat) (s s' : Store) : Prop where
  steps : Steps W (s.less k) (s'.less k')
  tally : (s'.less k').size + k' = (s.less k).size + k
  frame : s.SameFrame s'
  locks : s'.locks = s.locks
  arcs : ∀ p, s'.arcIn? p = if p ∈ gone then none else s.arcIn? p
  inward : s.FewerInward s'
  manifestation : ∀ c, (s'.data c).manifestation = (s.data c).manifestation

theorem Cut.refl (s : Store) (k : Nat) : Cut W [] k k s s :=
  ⟨.refl, rfl, .refl s, rfl, fun p => by rw [if_neg List.not_mem_nil],
    fewerInward_of_eq fun _ => rfl, fun _ => rfl⟩

theorem Cut.trans {gone gone' : List Place} {k k' k'' : Nat} {s'' : Store}
    (h : Cut W gone k k' s s') (h' : Cut W gone' k' k'' s' s'') :
    Cut W (gone ++ gone') k k'' s s'' := by
  refine ⟨Relation.ReflTransGen.trans h.steps h'.steps, h'.tally.trans h.tally,
    h.frame.trans h'.frame, h'.locks.trans h.locks, fun p => ?_, h.inward.trans h'.inward,
    fun c => (h'.manifestation c).trans (h.manifestation c)⟩
  rw [h'.arcs, h.arcs]
  by_cases hg' : p ∈ gone'
  · rw [if_pos hg', if_pos (List.mem_append_right gone hg')]
  · rw [if_neg hg']
    by_cases hg : p ∈ gone
    · rw [if_pos hg, if_pos (List.mem_append_left gone' hg)]
    · rw [if_neg hg, if_neg fun e => (List.mem_append.1 e).elim hg hg']

theorem cut_modifyData {c : CellId} {f : VertexData → VertexData} (hW : W c) (hf : KeepsArcs f)
    (hm : ∀ d, (f d).manifestation = d.manifestation) (k : Nat) :
    Cut W [] k k s (s.modifyData c f) := by
  refine ⟨.single (.attributes hW hf), rfl, hf.sameFrame s c, rfl,
    fun p => ?_, fewerInward_of_eq fun c' => ?_, fun c' => ?_⟩
  · rw [if_neg List.not_mem_nil, arcIn?, arcIn?, data_modifyData_ite]
    split
    · rw [(hf _).1]
    · rfl
  · rw [data_modifyData_ite]
    split
    · exact (hf _).2.1
    · rfl
  · rw [data_modifyData_ite]
    split
    · exact hm _
    · rfl

theorem size_pos_of_arcAt? (hs : s.Sound agree) {i t : CellId} (hi : s.Live i)
    {relationship : LabelCode} {kind : ArcKind} {a : StoredArc}
    (h : s.arcAt? i t relationship kind = some a) : 0 < s.size := by
  have hout : 0 < (s.data i).out.size := by
    have hat : (s.data i).out.get? (s.cell t).key relationship kind = some a := h
    have hsize := ArcIndex.size_remove (hs.paired.valid i hi).1 (s.cell t).key relationship kind
    rw [hat, Option.isSome_some, Bool.toNat_true] at hsize
    exact Nat.lt_of_lt_of_eq (Nat.succ_pos _) hsize
  rw [hs.paired.size]
  exact List.sum_pos_iff_exists_pos_nat.2
    ⟨_, List.mem_map_of_mem ((mem_registered_iff hs.placed).2 hi), hout⟩

/-- Taking an arc off leaves the size and the locks alone. -/
theorem size_locks_detach (s : Store) (i t : CellId) (arc : StoredArc) :
    (s.detach i t arc).2.size = s.size ∧ (s.detach i t arc).2.locks = s.locks := by
  cases h : s.arcAt? i t arc.relationship arc.kind with
  | none =>
    rw [detach_of_vacant h]
    exact ⟨rfl, rfl⟩
  | some removed =>
    rw [detach_of_arcAt? h]
    simp only [takeInward]
    split <;> exact ⟨rfl, rfl⟩

/-- It empties the arc's place and no other one. -/
theorem arcIn?_detach {i t : CellId} (hv : (s.data i).out.Valid) (hi : s.Live i) (ht : s.Live t)
    {arc removed : StoredArc} (h : s.arcAt? i t arc.relationship arc.kind = some removed)
    (p : Place) :
    (s.detach i t arc).2.arcIn? p =
      if p ∈ [(⟨i, s.keyOf t, arc.relationship, arc.kind⟩ : Place)] then none else s.arcIn? p := by
  obtain ⟨c, n, r, kind⟩ := p
  obtain ⟨_, hr, hk⟩ := ArcIndex.get?_slot h
  rw [arcIn?, data_detach hi.1 ht.1 h, dataWithout, arcIn?]
  by_cases hc : i = c
  · subst hc
    have hrem := ArcIndex.get?_remove hv (s.keyOf t) n removed.relationship r removed.kind kind
    dsimp only
    rw [if_pos rfl, hr, hk]
    rw [hr, hk] at hrem
    refine hrem.trans ?_
    simp only [List.mem_singleton, Place.mk.injEq, true_and, eq_comm]
  · have hne : ¬ (⟨c, n, r, kind⟩ : Place) ∈
        [(⟨i, s.keyOf t, arc.relationship, arc.kind⟩ : Place)] := by
      rw [List.mem_singleton, Place.mk.injEq]
      exact fun e => hc e.1.symm
    rw [if_neg hne]
    simp [hc]

/-- It takes an arc off the inbound side of its terminal at most. -/
theorem fewerInward_detach {i t : CellId} (hv : (s.data t).inbound.Valid) (hi : s.Live i)
    (ht : s.Live t) {arc removed : StoredArc}
    (h : s.arcAt? i t arc.relationship arc.kind = some removed) :
    s.FewerInward (s.detach i t arc).2 := by
  intro c n a ha
  rw [data_detach hi.1 ht.1 h, dataWithout] at ha
  dsimp only at ha
  split at ha
  next hc =>
    obtain ⟨rfl, _⟩ := hc
    exact ArcIndex.mem_arcsTo_of_remove hv ha
  next => exact ha

theorem cut_detach {k : Nat} {i t : CellId} (hs : (s.less k).Sound agree) (hWi : W i) (hWt : W t)
    (hi : s.Live i) (ht : s.Live t) (arc : StoredArc) :
    Cut W [⟨i, s.keyOf t, arc.relationship, arc.kind⟩] k (k + (s.detach i t arc).1.toNat) s
      (s.detach i t arc).2 := by
  cases hfound : s.arcAt? i t arc.relationship arc.kind with
  | none =>
    rw [detach_of_vacant hfound]
    refine ⟨.refl, rfl, .refl s, rfl, fun p => ?_, fewerInward_of_eq fun _ => rfl, fun _ => rfl⟩
    split
    next hp =>
      rw [List.mem_singleton.1 hp]
      exact hfound
    next => rfl
  | some removed =>
    have hfound' : (s.less k).arcAt? i t arc.relationship arc.kind = some removed := hfound
    have hpos := size_pos_of_arcAt? hs hi hfound'
    have hvalid : (s.data i).out.Valid := (hs.paired.valid i hi).1
    have hvalid' : (s.data t).inbound.Valid := (hs.paired.valid t ht).2
    have hcount : (s.detach i t arc).1.toNat = 1 := by rw [detach_of_arcAt? hfound]; rfl
    obtain ⟨hsize, hlocks⟩ := size_locks_detach s i t arc
    have hless : (s.detach i t arc).2.less (k + 1) =
        { ((s.less k).detach i t arc).2 with size := (s.less k).size - 1 } := by
      rw [detach_less]
      simp only [less, hsize, Nat.sub_sub]
    rw [hcount]
    refine ⟨?_, ?_, sameFrame_detach s i t arc, hlocks,
      arcIn?_detach hvalid hi ht hfound,
      fewerInward_detach hvalid' hi ht hfound, fun c => ?_⟩
    · rw [hless]
      exact .single (.detach hWi hWt hi ht hfound')
    · rw [hless]
      change (s.less k).size - 1 + (k + 1) = (s.less k).size + k
      omega
    · rw [data_detach hi.1 ht.1 hfound]
      rfl

/-- The place of an arc that is seen from an anchor. -/
def placeOf (s : Store) (anchor neighbor : CellId) (seen : Direction × StoredArc) : Place :=
  if seen.1 = .inward then ⟨neighbor, s.keyOf anchor, seen.2.relationship, seen.2.kind⟩
  else ⟨anchor, s.keyOf neighbor, seen.2.relationship, seen.2.kind⟩

theorem cut_detachAll {k : Nat} {anchor neighbor : CellId} (hs : (s.less k).Sound agree)
    (hWa : W anchor) (hWn : W neighbor) (ha : s.Live anchor) (hn : s.Live neighbor)
    (arcs : List (Direction × StoredArc)) :
    Cut W (arcs.map (s.placeOf anchor neighbor)) k (k + (detachAll anchor neighbor arcs s).1) s
      (detachAll anchor neighbor arcs s).2 := by
  induction arcs generalizing s k with
  | nil => exact .refl s k
  | cons seen rest ih =>
    obtain ⟨direction, arc⟩ := seen
    -- the arc at the head, on whichever side it is
    have hhead : ∃ gone s₁, (if direction = .inward then s.detach neighbor anchor arc
          else s.detach anchor neighbor arc) = (gone, s₁) ∧
        Cut W [s.placeOf anchor neighbor (direction, arc)] k (k + gone.toNat) s s₁ := by
      by_cases hd : direction = .inward
      · refine ⟨_, _, by rw [if_pos hd], ?_⟩
        rw [placeOf, if_pos hd]
        exact cut_detach hs hWn hWa hn ha arc
      · refine ⟨_, _, by rw [if_neg hd], ?_⟩
        rw [placeOf, if_neg hd]
        exact cut_detach hs hWa hWn ha hn arc
    obtain ⟨gone, s₁, hrun, hcut⟩ := hhead
    have hplace : s₁.placeOf anchor neighbor = s.placeOf anchor neighbor := by
      funext seen
      simp only [placeOf, keyOf, hcut.frame.key]
    have hrest := ih (Steps.sound hcut.steps hs) (hcut.frame.live_iff.2 ha)
      (hcut.frame.live_iff.2 hn)
    rw [hplace] at hrest
    have hall := hcut.trans hrest
    simp only [detachAll, hrun]
    rw [Nat.add_comm (detachAll anchor neighbor rest s₁).1, ← Nat.add_assoc]
    exact hall

/-! ## Neighbors that stand in the way -/

/-- Whether the vertex of a key cannot be held writable. -/
def obstructed (s : Store) (me : Thread) (anchor : CellId) (key : VertexKey) : Bool :=
  key ≠ s.keyOf anchor && (s.lookupKey key).any fun c =>
    !(s.locks.acquire me (s.lockItem c) .writable).isOk

/-- The arcs between an anchor and one neighbor, each seen from the anchor. -/
abbrev Group := VertexKey × List (Direction × StoredArc)

/-- The places of a group's arcs. -/
def places (s : Store) (anchor : CellId) (group : Group) : List Place :=
  group.2.map (s.placeOf anchor ((s.lookupKey group.1).getD anchor))

/-- The neighbor of a group, if it is another vertex than the anchor. -/
def otherCell? (s : Store) (anchor : CellId) (group : Group) : Option CellId :=
  (s.lookupKey group.1).filter fun c => c ≠ anchor

/-- The groups whose neighbor can be held. -/
def clear (s : Store) (me : Thread) (anchor : CellId) (groups : List Group) : List Group :=
  groups.filter fun group => !s.obstructed me anchor group.1

/-- The groups whose neighbor cannot be held. -/
def blocked (s : Store) (me : Thread) (anchor : CellId) (groups : List Group) : List Group :=
  groups.filter fun group => s.obstructed me anchor group.1

section Groups

variable {me : Thread} {anchor : CellId} {group : Group} (groups : List Group)

theorem clear_cons_of_obstructed (h : s.obstructed me anchor group.1 = true) :
    s.clear me anchor (group :: groups) = s.clear me anchor groups := by
  rw [clear, List.filter_cons, h]
  rfl

theorem clear_cons (h : s.obstructed me anchor group.1 = false) :
    s.clear me anchor (group :: groups) = group :: s.clear me anchor groups := by
  rw [clear, List.filter_cons, h]
  rfl

theorem blocked_cons_of_obstructed (h : s.obstructed me anchor group.1 = true) :
    s.blocked me anchor (group :: groups) = group :: s.blocked me anchor groups := by
  rw [blocked, List.filter_cons, h]
  rfl

theorem blocked_cons (h : s.obstructed me anchor group.1 = false) :
    s.blocked me anchor (group :: groups) = s.blocked me anchor groups := by
  rw [blocked, List.filter_cons, h]
  rfl

theorem filterMap_otherCell?_cons (s : Store) (anchor : CellId) (group : Group) :
    (group :: groups).filterMap (s.otherCell? anchor) =
      (s.otherCell? anchor group).toList ++ groups.filterMap (s.otherCell? anchor) := by
  rw [List.filterMap_cons]
  cases s.otherCell? anchor group <;> rfl

theorem keyOf_of_otherCell? (hp : s.Placed) {c : CellId} (h : s.otherCell? anchor group = some c) :
    s.keyOf c = group.1 := hp.key_of_lookup (Option.filter_eq_some_iff.1 h).1

end Groups

/-! ## The walk -/

/-- A removal around an anchor has emptied some places and let go of the neighbors
`freed`; of these, it has taken out the virtual ones that were left without arcs and
on which there is no other guard. -/
structure Severed (me : Thread) (H : List Guard) (anchor : CellId) (gone : List Place)
    (freed : List CellId) (k k' : Nat) (s s' : Store) : Prop where
  steps : Steps (fun c => c = anchor ∨ c ∈ freed) (s.less k) (s'.less k')
  tally : (s'.less k').size + k' = (s.less k).size + k
  guarded : s'.Guarded H
  settings : s.locks.SameSettings s'.locks
  others : ∀ c ∈ freed, c ≠ anchor ∧ s.Live c ∧ Guard.Open H me c
  arcs : ∀ p, s'.arcIn? p = if p ∈ gone then none else s.arcIn? p
  inward : s.FewerInward s'
  manifestation : ∀ c, (s'.data c).manifestation = (s.data c).manifestation
  live : ∀ c, s'.Live c ↔ s.Live c ∧ ¬ (c ∈ freed ∧ Guard.onSlot c H = [] ∧
    (s'.data c).manifestation = .virtual ∧ (s'.data c).degree = 0)
  bare : ∀ c, s.Live c → ¬ s'.Live c → Bare (s'.data c)

variable {me : Thread} {H : List Guard} {anchor : CellId} {gone gone' : List Place}
  {freed freed' : List CellId} {k k' k'' : Nat}

/-- Emptying places between the anchor and itself. -/
theorem Cut.severed (h : Cut (fun c => c = anchor ∨ c ∈ []) gone k k' s s') (hg : s.Guarded H) :
    Severed me H anchor gone [] k k' s s' := by
  refine ⟨h.steps, h.tally, ?_, ?_, fun c hc => absurd hc List.not_mem_nil, h.arcs,
    h.inward, h.manifestation, fun c => ?_, fun c hc hn => absurd (h.frame.live_iff.2 hc) hn⟩
  · exact hg.transfer h.frame.extends (h.locks ▸ hg.accounts) fun _ hm => hm
  · exact h.locks ▸ .refl s.locks
  · rw [h.frame.live_iff]
    exact ⟨fun hl => ⟨hl, fun e => absurd e.1 List.not_mem_nil⟩, fun hl => hl.1⟩

theorem Severed.extends (h : Severed me H anchor gone freed k k' s s') : s.Extends s' := by
  obtain ⟨count, id, key⟩ := Steps.extends h.steps
  exact ⟨count, id, key⟩

theorem Severed.live_anchor (h : Severed me H anchor gone freed k k' s s') (ha : s.Live anchor) :
    s'.Live anchor :=
  (h.live anchor).2 ⟨ha, fun e => (h.others anchor e.1).1 rfl⟩

theorem Severed.trans {s'' : Store} (h : Severed me H anchor gone freed k k' s s')
    (h' : Severed me H anchor gone' freed' k' k'' s' s'') (hdisjoint : ∀ c ∈ freed, c ∉ freed') :
    Severed me H anchor (gone ++ gone') (freed ++ freed') k k'' s s'' := by
  have hmono : ∀ c, c = anchor ∨ c ∈ freed → c = anchor ∨ c ∈ freed ++ freed' :=
    fun c => .imp_right (List.mem_append_left freed')
  have hmono' : ∀ c, c = anchor ∨ c ∈ freed' → c = anchor ∨ c ∈ freed ++ freed' :=
    fun c => .imp_right (List.mem_append_right freed)
  have hkept : ∀ c ∈ freed, s''.data c = s'.data c := by
    intro c hc
    obtain ⟨hne, hl, _⟩ := h.others c hc
    exact Steps.data_eq h'.steps (fun e => e.elim hne (hdisjoint c hc))
      (Nat.lt_of_lt_of_le hl.1 h.extends.count)
  refine ⟨Relation.ReflTransGen.trans (Steps.mono h.steps hmono) (Steps.mono h'.steps hmono'),
    h'.tally.trans h.tally, h'.guarded, h.settings.trans h'.settings, fun c hc => ?_, fun p => ?_,
    h.inward.trans h'.inward, fun c => (h'.manifestation c).trans (h.manifestation c),
    fun c => ?_, fun c hl hn => ?_⟩
  · rcases List.mem_append.1 hc with hc | hc
    · exact h.others c hc
    · obtain ⟨hne, hl, hopen⟩ := h'.others c hc
      exact ⟨hne, ((h.live c).1 hl).1, hopen⟩
  · rw [h'.arcs, h.arcs]
    by_cases hg' : p ∈ gone'
    · rw [if_pos hg', if_pos (List.mem_append_right gone hg')]
    · rw [if_neg hg']
      by_cases hg : p ∈ gone
      · rw [if_pos hg, if_pos (List.mem_append_left gone' hg)]
      · rw [if_neg hg, if_neg fun e => (List.mem_append.1 e).elim hg hg']
  · rw [h'.live, h.live]
    by_cases hc : c ∈ freed
    · simp only [hc, hdisjoint c hc, hkept c hc, List.mem_append, true_and, false_and, or_false,
        not_false_eq_true, and_true]
    · simp only [hc, List.mem_append, false_or, false_and, not_false_eq_true, and_true]
  · by_cases hl' : s'.Live c
    · exact h'.bare c hl' hn
    · have hc : c ∈ freed := by
        rw [h.live] at hl'
        exact (not_not.1 fun e => hl' ⟨hl, e⟩).1
      rw [hkept c hc]
      exact h.bare c hl hl'

theorem size_drop (s : Store) (g : Guard) : (s.drop g).size = s.size := by
  have hcollect : ∀ c, (s.collectOrphan c).size = s.size := by
    intro c
    simp only [collectOrphan, remove, unlink]
    split
    · split <;> rfl
    · rfl
  simp only [drop]
  split
  · exact hcollect _
  · rfl

/-- Giving a guard up changes no more than a mark of the vertex. -/
theorem fields_drop {g : Guard} (hg : s.Guarded (g :: H)) (hwriter : g.hold = .writer)
    (c : CellId) :
    ((s.drop g).data c).out = (s.data c).out ∧ ((s.drop g).data c).inbound = (s.data c).inbound ∧
      ((s.drop g).data c).forwardOnlyIn = (s.data c).forwardOnlyIn ∧
      ((s.drop g).data c).manifestation = (s.data c).manifestation := by
  rw [data_drop hg hwriter]
  split <;> exact ⟨rfl, rfl, rfl, rfl⟩

theorem degree_drop {g : Guard} (hg : s.Guarded (g :: H)) (hwriter : g.hold = .writer)
    (c : CellId) : ((s.drop g).data c).degree = (s.data c).degree := by
  obtain ⟨ho, hi, hf, _⟩ := fields_drop hg hwriter c
  simp only [VertexData.degree, VertexData.indegree, VertexData.outdegree, ho, hi, hf]

/-- The arcs of one group are taken off while its neighbor is held. -/
theorem severed_neighbor {who : Caller} {neighbor : CellId} {arcs : List (Direction × StoredArc)}
    {g : Guard} {t : LockTable} (hs : (s.less k).Sound agree) (hg : s.Guarded H)
    (ha : s.Live anchor) (hn : s.Live neighbor) (hne : neighbor ≠ anchor)
    (hacq : s.locks.acquire who.thread (s.lockItem neighbor) .writable = .ok (g, t)) :
    Severed who.thread H anchor (arcs.map (s.placeOf anchor neighbor)) [neighbor] k
      (k + (detachAll anchor neighbor arcs { s with locks := t }).1) s
      ((((detachAll anchor neighbor arcs { s with locks := t }).2.modifyData anchor
        (·.touch who.now)).modifyData neighbor (·.touch who.now)).drop g) := by
  obtain ⟨hwriter, hopen⟩ := LockTable.open_of_acquire hg.accounts hacq
  have hslot : g.item.slot = neighbor := congrArg LockItem.slot (LockTable.acquire_ok hacq).2.1
  have hs₁ : Sound agree (less { s with locks := t } k) := hs.withLocks t
  have htouch : KeepsArcs (·.touch who.now) := fun _ => ⟨rfl, rfl, rfl, rfl, rfl⟩
  have hcut := ((cut_detachAll (W := fun c => c = anchor ∨ c ∈ [neighbor]) hs₁ (.inl rfl)
    (.inr List.mem_cons_self) ha hn arcs).trans
      (cut_modifyData (.inl rfl) htouch (fun _ => rfl) _)).trans
        (cut_modifyData (.inr List.mem_cons_self) htouch (fun _ => rfl) _)
  generalize (detachAll anchor neighbor arcs { s with locks := t }).1 = n at hcut ⊢
  generalize (((detachAll anchor neighbor arcs { s with locks := t }).2.modifyData anchor
    (·.touch who.now)).modifyData neighbor (·.touch who.now)) = s₃ at hcut ⊢
  have hg₃ : s₃.Guarded (g :: H) := by
    have hg₁ := hg.acquire hn.1 hacq
    exact hg₁.transfer hcut.frame.extends (hcut.locks ▸ hg₁.accounts) fun _ hm => hm
  obtain ⟨hsteps, hg₄⟩ := drop_spec (W := fun c => c = anchor ∨ c ∈ [neighbor]) (hg₃.less (k + n))
    fun _ => .inr (hslot ▸ List.mem_cons_self)
  rw [drop_less] at hsteps hg₄
  have hfields := fields_drop hg₃ hwriter
  have hlive : ∀ c, (s₃.drop g).Live c ↔ s.Live c ∧ ¬ (neighbor = c ∧ Guard.onSlot c H = [] ∧
      (s₃.data c).manifestation = .virtual ∧ (s₃.data c).degree = 0) := by
    intro c
    rw [live_drop_iff hg₃ hwriter, hcut.frame.live_iff, hslot]
    rfl
  refine ⟨?_, ?_, ⟨hg₄.accounts, hg₄.item⟩, ?_, ?_, fun p => ?_,
    FewerInward.trans hcut.inward (fewerInward_of_eq fun c => (hfields c).2.1), fun c => ?_,
    fun c => ?_, fun c hc hgone => ?_⟩
  · exact ((Relation.ReflTransGen.single (Step.locks _ t)).trans hcut.steps).trans hsteps
  · have hsize : ((s₃.drop g).less (k + n)).size = (s₃.less (k + n)).size := by
      simp only [less, size_drop]
    rw [hsize]
    exact hcut.tally
  · have hlocks : (s₃.drop g).locks = s₃.locks.release g := by rw [drop_writer hg₃ hwriter]
    rw [hlocks, hcut.locks]
    exact (LockTable.sameSettings_acquire hacq).trans (LockTable.sameSettings_release t g)
  · intro c hc
    rw [List.mem_singleton.1 hc]
    exact ⟨hne, hn, hopen⟩
  · rw [arcIn?, (hfields p.cell).1]
    have hp := hcut.arcs p
    rw [List.append_nil, List.append_nil] at hp
    exact hp
  · rw [(hfields c).2.2.2]
    exact hcut.manifestation c
  · rw [hlive, (hfields c).2.2.2, degree_drop hg₃ hwriter, List.mem_singleton,
      eq_comm (a := neighbor)]
  · rw [hlive] at hgone
    obtain ⟨_, _, _, hzero⟩ := not_not.1 fun e => hgone ⟨hc, e⟩
    have hs₃ : (s₃.less (k + n)).Sound agree := Steps.sound hcut.steps hs₁
    have hb := (hs₃.paired.bare_iff (hcut.frame.live_iff.2 hc)).1 hzero
    obtain ⟨ho, hi, hf, _⟩ := hfields c
    exact ⟨ho.trans hb.out, hi.trans hb.inbound, hf.trans hb.forwardOnlyIn⟩

/-! ## Group by group -/

theorem severGroup_obstructed (who : Caller) {group : Group} (r : Removal)
    (h : s.obstructed who.thread anchor group.1 = true) :
    ∃ cause, severGroup who anchor group.1 group.2 r s =
      ({ r with remaining := r.remaining + group.2.length, cause := r.cause.or (some cause) },
        s) := by
  simp only [obstructed, Bool.and_eq_true, decide_eq_true_eq] at h
  obtain ⟨hne, hany⟩ := h
  obtain ⟨c, hk, hbusy⟩ := (Option.any_eq_true ..).1 hany
  simp only [severGroup, show ¬ group.1 = (s.cell anchor).key from hne, if_false, hk]
  cases hacq : s.locks.acquire who.thread (s.lockItem c) .writable with
  | error e => exact ⟨e, rfl⟩
  | ok p => simp [hacq, Except.isOk, Except.toBool] at hbusy

theorem severGroup_clear (who : Caller) {group : Group} {c : CellId} {r : Removal}
    (hs : (s.less r.removed).Sound agree) (hg : s.Guarded H) (ha : s.Live anchor)
    (hk : s.lookupKey group.1 = some c) (h : s.obstructed who.thread anchor group.1 = false) :
    ∃ n, (severGroup who anchor group.1 group.2 r s).1 = { r with removed := r.removed + n } ∧
      Severed who.thread H anchor (s.places anchor group) (s.otherCell? anchor group).toList
        r.removed (r.removed + n) s (severGroup who anchor group.1 group.2 r s).2 := by
  have hplaced : s.Placed := ⟨hs.placed.lookup, hs.placed.keyed⟩
  have hcell : s.keyOf c = group.1 := hplaced.key_of_lookup hk
  rw [places, otherCell?, hk, Option.getD_some]
  by_cases hself : group.1 = s.keyOf anchor
  · have hc : c = anchor := hplaced.eq_of_key (hplaced.live_of_lookup hk) ha (hcell.trans hself)
    subst hc
    simp only [severGroup, show group.1 = (s.cell c).key from hself, if_true]
    refine ⟨_, rfl, ?_⟩
    have hnone : ((some c).filter fun c' => c' ≠ c).toList = [] := by simp
    rw [hnone]
    exact (cut_detachAll hs (.inl rfl) (.inl rfl) ha ha group.2).severed hg
  · have hne : c ≠ anchor := fun e => hself (e ▸ hcell.symm)
    have hsome : ((some c).filter fun c' => c' ≠ anchor).toList = [c] := by simp [hne]
    rw [hsome]
    simp only [severGroup, show ¬ group.1 = (s.cell anchor).key from hself, if_false, hk]
    cases hacq : s.locks.acquire who.thread (s.lockItem c) .writable with
    | error e => simp [obstructed, hself, hk, hacq, Except.isOk, Except.toBool] at h
    | ok p =>
      exact ⟨_, rfl, severed_neighbor hs hg ha (hplaced.live_of_lookup hk) hne hacq⟩

/-- What the walk will find at a neighbor it has not come to yet stays the same. -/
structure Ahead (s s' : Store) (me : Thread) (anchor : CellId) (group : Group) : Prop where
  lookup : s'.lookupKey group.1 = s.lookupKey group.1
  obstructed : s'.obstructed me anchor group.1 = s.obstructed me anchor group.1
  places : s'.places anchor group = s.places anchor group
  other : s'.otherCell? anchor group = s.otherCell? anchor group

theorem Severed.ahead (h : Severed me H anchor gone freed k k' s s') (hp : s.Placed)
    (hp' : s'.Placed) (hg : s.Guarded H) (ha : s.Live anchor) {group : Group}
    (hnew : ∀ c ∈ freed, s.keyOf c ≠ group.1) : s.Ahead s' me anchor group := by
  have hlookup : s'.lookupKey group.1 = s.lookupKey group.1 := by
    refine Option.ext fun c => ?_
    rw [hp'.lookup, hp.lookup, h.live]
    constructor
    · rintro ⟨⟨hl, _⟩, hk⟩
      exact ⟨hl, (h.extends.key c hl.1).symm.trans hk⟩
    · rintro ⟨hl, hk⟩
      exact ⟨⟨hl, fun e => hnew c e.1 hk⟩, (h.extends.key c hl.1).trans hk⟩
  have hanchor : s'.keyOf anchor = s.keyOf anchor := h.extends.key anchor ha.1
  have hcell : ∀ c, s.lookupKey group.1 = some c → c < s.cells.size :=
    fun c hc => (hp.live_of_lookup hc).1
  refine ⟨hlookup, ?_, ?_, ?_⟩
  · rw [Store.obstructed, Store.obstructed, hlookup, hanchor]
    cases hc : s.lookupKey group.1 with
    | none => rfl
    | some c =>
      have hbusy := LockTable.acquire_congr me .writable _ hg.accounts h.guarded.accounts
        h.settings (congrArg LockItem.slot (h.extends.lockItem (hcell c hc))) rfl
      simp only [Option.any_some, hbusy]
  · rw [Store.places, Store.places, hlookup]
    refine List.map_congr_left fun seen _ => ?_
    have hother : s'.keyOf ((s.lookupKey group.1).getD anchor) =
        s.keyOf ((s.lookupKey group.1).getD anchor) := by
      cases hc : s.lookupKey group.1 with
      | none => exact hanchor
      | some c => exact h.extends.key c (hcell c hc)
    rw [placeOf, placeOf, hanchor, hother]
  · rw [otherCell?, otherCell?, hlookup]

section Ahead

variable {me : Thread} {anchor : CellId} {groups : List Group}

theorem clear_of_ahead (h : ∀ group ∈ groups, s.Ahead s' me anchor group) :
    s'.clear me anchor groups = s.clear me anchor groups :=
  List.filter_congr fun group hm => by rw [(h group hm).obstructed]

theorem blocked_of_ahead (h : ∀ group ∈ groups, s.Ahead s' me anchor group) :
    s'.blocked me anchor groups = s.blocked me anchor groups :=
  List.filter_congr fun group hm => (h group hm).obstructed

theorem flatMap_places_of_ahead (h : ∀ group ∈ groups, s.Ahead s' me anchor group) :
    (s.clear me anchor groups).flatMap (s'.places anchor) =
      (s.clear me anchor groups).flatMap (s.places anchor) :=
  List.flatMap_congr fun group hm => (h group (List.mem_of_mem_filter hm)).places

theorem filterMap_otherCell?_of_ahead (h : ∀ group ∈ groups, s.Ahead s' me anchor group) :
    (s.clear me anchor groups).filterMap (s'.otherCell? anchor) =
      (s.clear me anchor groups).filterMap (s.otherCell? anchor) :=
  List.filterMap_congr fun group hm => (h group (List.mem_of_mem_filter hm)).other

end Ahead

/-- The neighbors to come have other keys than the one just dealt with. -/
theorem Severed.ahead_of_fresh {group : Group} {rest : List Group}
    (h : Severed me H anchor gone (s.otherCell? anchor group).toList k k' s s') (hp : s.Placed)
    (hp' : s'.Placed) (hg : s.Guarded H) (ha : s.Live anchor)
    (hfresh : group.1 ∉ rest.map Prod.fst) : ∀ g ∈ rest, s.Ahead s' me anchor g := by
  intro g hm
  refine h.ahead hp hp' hg ha fun c hc hk => hfresh ?_
  rw [← keyOf_of_otherCell? hp (Option.mem_toList.1 hc), hk]
  exact List.mem_map_of_mem hm

theorem severGroups_cons {who : Caller} {group : Group} {rest : List Group} {r r₁ : Removal}
    {s₁ : Store} (h : severGroup who anchor group.1 group.2 r s = (r₁, s₁)) :
    severGroups who anchor (group :: rest) r s = severGroups who anchor rest r₁ s₁ := by
  simp only [severGroups, h]

/-- The whole walk: it empties the places of the groups whose neighbor can be held,
and counts the arcs of the others. -/
theorem severGroups_spec {who : Caller} {groups : List Group} {r : Removal}
    (hs : (s.less r.removed).Sound agree) (hg : s.Guarded H) (ha : s.Live anchor)
    (hkeys : (groups.map Prod.fst).Nodup)
    (hknown : ∀ group ∈ groups, ∃ c, s.lookupKey group.1 = some c) {r' : Removal} {s' : Store}
    (hrun : severGroups who anchor groups r s = (r', s')) :
    Severed who.thread H anchor
        ((s.clear who.thread anchor groups).flatMap (s.places anchor))
        ((s.clear who.thread anchor groups).filterMap (s.otherCell? anchor))
        r.removed r'.removed s s' ∧
      r'.remaining = r.remaining +
        ((s.blocked who.thread anchor groups).map fun group => group.2.length).sum ∧
      r'.cause.isSome = (r.cause.isSome || !(s.blocked who.thread anchor groups).isEmpty) := by
  induction groups generalizing s r with
  | nil =>
    cases hrun
    refine ⟨(Cut.refl _ _).severed hg, rfl, ?_⟩
    exact (Bool.or_false _).symm
  | cons group rest ih =>
    obtain ⟨hfresh, hrest⟩ := List.nodup_cons.1 hkeys
    obtain ⟨c, hc⟩ := hknown group List.mem_cons_self
    have hknown' := fun g hm => hknown g (List.mem_cons_of_mem group hm)
    have hp : s.Placed := ⟨hs.placed.lookup, hs.placed.keyed⟩
    cases hbusy : s.obstructed who.thread anchor group.1 with
    | true =>
      obtain ⟨cause, hgroup⟩ := severGroup_obstructed who r hbusy
      rw [severGroups_cons hgroup] at hrun
      obtain ⟨hsev, hleft, hcause⟩ := ih (r := { r with
        remaining := r.remaining + group.2.length, cause := r.cause.or (some cause) }) hs hg ha
        hrest hknown' hrun
      rw [clear_cons_of_obstructed rest hbusy, blocked_cons_of_obstructed rest hbusy]
      refine ⟨hsev, ?_, ?_⟩
      · rw [hleft, List.map_cons, List.sum_cons, Nat.add_assoc]
      · rw [hcause]
        cases r.cause <;> rfl
    | false =>
      obtain ⟨n, hr₁, hsev⟩ := severGroup_clear who hs hg ha hc hbusy
      cases hgroup : severGroup who anchor group.1 group.2 r s with
      | mk r₁ s₁ =>
        rw [severGroups_cons hgroup] at hrun
        rw [hgroup] at hr₁ hsev
        dsimp only at hr₁
        subst hr₁
        have hs₁ : (s₁.less (r.removed + n)).Sound agree := Steps.sound hsev.steps hs
        have hp₁ : s₁.Placed := ⟨hs₁.placed.lookup, hs₁.placed.keyed⟩
        have hahead := hsev.ahead_of_fresh hp hp₁ hg ha hfresh
        obtain ⟨hsev', hleft, hcause⟩ := ih (r := { r with removed := r.removed + n }) hs₁
          hsev.guarded (hsev.live_anchor ha) hrest
          (fun g hm => (hahead g hm).lookup ▸ hknown' g hm) hrun
        rw [clear_of_ahead hahead, flatMap_places_of_ahead hahead,
          filterMap_otherCell?_of_ahead hahead] at hsev'
        rw [blocked_of_ahead hahead] at hleft hcause
        rw [clear_cons rest hbusy, blocked_cons rest hbusy, filterMap_otherCell?_cons,
          List.flatMap_cons]
        refine ⟨hsev.trans hsev' fun c' hc' hmem => hfresh ?_, hleft, hcause⟩
        obtain ⟨g, hm, hother⟩ := List.mem_filterMap.1 hmem
        rw [← keyOf_of_otherCell? hp (Option.mem_toList.1 hc'), keyOf_of_otherCell? hp hother]
        exact List.mem_map_of_mem (List.mem_of_mem_filter hm)

end Store

end Arcbase
