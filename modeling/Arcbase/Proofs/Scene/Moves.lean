import Arcbase.Proofs.Action.Connecting
import Arcbase.Proofs.Arc.Kind
import Arcbase.Proofs.Labels
import Arcbase.Proofs.Store.Sweeping
set_option autoImplicit false

/-!
# What a graph in use does move by move

A scene is a store with the guards that are held on it, and with the vertices that have
been registered virtual for arcs that are yet to come.  A graph in use makes the moves
below and no others.  They say more than the steps of a store: which guards stay, which
vertices may go, and what may be written.  An operation's moves may take out, or make
virtual, only vertices whose identifiers are in a set `D`, orphans apart, and may write
arcs only if `A`.

Every move is made of steps, so that it leaves a scene in order (`Moves.ordered`).
-/

namespace Arcbase

namespace Store

/-- A writer's guard is on the cell. -/
def Written (G : List Guard) (c : CellId) : Prop := ∃ g ∈ G, g.hold = .writer ∧ g.item.slot = c

/-- The store when a guard stops to be a writer's: its orphan is gone. -/
def surrender (s : Store) (g : Guard) : Store :=
  if g.isWritable && s.locks.isOutermost g then s.collectOrphan g.item.slot else s

/-- A vertex may be the terminal of another arc, forward-only or regular. -/
structure Takes (s : Store) (t : CellId) (forwardOnly : Bool) : Prop where
  forward : forwardOnly = true → (s.data t).inbound.isEmpty = true
  regular : forwardOnly = false → (s.data t).forwardOnlyIn = 0

end Store

open Store

/-- A store with the guards that are held on it, and with vertices that are registered
virtual and may have neither arcs nor guards yet. -/
structure Scene where
  guards : List Guard
  loose : List CellId
  store : Store

/-- The store is sound and accounts for the guards. -/
structure Scene.Ordered (agree : Agreement) (x : Scene) : Prop where
  sound : x.store.Sound agree
  guarded : x.store.Guarded x.guards

/-- One move of an operation that may take the vertices in `D` out, or make them virtual,
and may write arcs if `A`. -/
inductive Move (D : String → Prop) (A : Prop) : Scene → Scene → Prop where
  | locks {G G' : List Guard} {F F' : List CellId} {s : Store} {locks : LockTable}
      (guarded : Guarded { s with locks } G') (held : ∀ c, Written G c → Written G' c)
      (placed : ∀ g ∈ G', s.Live g.item.slot ∨ ∃ g₀ ∈ G, g₀.item.slot = g.item.slot)
      (settled : ∀ c ∈ F, c ∈ F' ∨ Written G' c) : Move D A ⟨G, F, s⟩ ⟨G', F', { s with locks }⟩
  | labels (G : List Guard) (F : List CellId) (s : Store) {labels : Labels}
      (grown : s.labels.Grows labels) : Move D A ⟨G, F, s⟩ ⟨G, F, { s with labels }⟩
  | schedule (G : List Guard) (F : List CellId) (s : Store) (schedule : Schedule) :
      Move D A ⟨G, F, s⟩ ⟨G, F, { s with schedule }⟩
  | attributes (G : List Guard) (F : List CellId) (s : Store) (c : CellId)
      {f : VertexData → VertexData} (keeps : KeepsArcs f)
      (rises : ∀ d, (f d).manifestation = d.manifestation ∨ (f d).manifestation = .real) :
      Move D A ⟨G, F, s⟩ ⟨G, F, s.modifyData c f⟩
  | add {G : List Guard} {F F' : List CellId} {s : Store} {new : Cell}
      (fresh : s.lookupKey new.key = none) (keyed : new.key = .of new.id)
      (kept : new.data.deleted = false) (bare : Bare new.data)
      (named : s.identifierFault? new.id = none)
      (loose : new.data.manifestation = .virtual → s.cells.size ∈ F') (more : ∀ c ∈ F, c ∈ F') :
      Move D A ⟨G, F, s⟩ ⟨G, F', s.addCell new⟩
  | give {G back : List Guard} {F : List CellId} {s : Store} {g : Guard} {locks : LockTable}
      (guarded : Guarded { s.surrender g with locks } (back ++ G))
      (kept : ∀ g' ∈ back, g'.item.slot = g.item.slot ∧ (s.surrender g).Live g.item.slot) :
      Move D A ⟨g :: G, F, s⟩ ⟨back ++ G, F, { s.surrender g with locks }⟩
  | put {G : List Guard} {F : List CellId} {s : Store} {i t : CellId} {relationship : LabelCode}
      {kind : ArcKind} {forwardOnly : Bool} {u : ArcUpdate} (now : UInt32) (allowed : A)
      (initial : s.Live i) (terminal : s.Live t) (real : (s.data i).manifestation = .real)
      (named : ∃ label, s.labels.relationships.decode? relationship = some label)
      (fits : u.Fits kind) (takes : s.Takes t forwardOnly) :
      Move D A ⟨G, F, s⟩ ⟨G, F, (s.putArc i t relationship kind forwardOnly u now).2⟩
  | sever {G : List Guard} {F : List CellId} {s s' : Store} {me : Thread} {anchor : CellId}
      {gone : List Place} {freed : List CellId} {n : Nat}
      (severed : Severed me G anchor gone freed 0 n s s') (held : Written G anchor)
      (dates : s.SameDates s') : Move D A ⟨G, F, s⟩ ⟨G, F, s'.less n⟩
  | remove (G : List Guard) (F : List CellId) {s : Store} {c : CellId} (doomed : D (s.cell c).id)
      (live : s.Live c) (bare : (s.data c).degree = 0) : Move D A ⟨G, F, s⟩ ⟨G, F, s.remove c⟩
  | demote (G : List Guard) (F : List CellId) {s : Store} {c : CellId} (doomed : D (s.cell c).id)
      (live : s.Live c) (out : (s.data c).out = .empty) (kept : 0 < (s.data c).forwardOnlyIn) :
      Move D A ⟨G, F, s⟩
        ⟨G, F, s.modifyData c fun d => { d with manifestation := .virtual, expires := none }⟩

/-- Any number of moves. -/
abbrev Moves (D : String → Prop) (A : Prop) : Scene → Scene → Prop :=
  Relation.ReflTransGen (Move D A)

variable {D D' : String → Prop} {A A' : Prop} {agree : Agreement} {x y : Scene}

theorem Move.moves (m : Move D A x y) : Moves D A x y := .single m

theorem Move.mono (m : Move D A x y) (hD : ∀ id, D id → D' id) (hA : A → A') : Move D' A' x y := by
  cases m with
  | locks guarded held placed settled => exact .locks guarded held placed settled
  | labels _ _ _ grown => exact .labels _ _ _ grown
  | schedule => exact .schedule ..
  | attributes _ _ _ _ keeps rises => exact .attributes _ _ _ _ keeps rises
  | add fresh keyed kept bare named loose more => exact .add fresh keyed kept bare named loose more
  | give guarded kept => exact .give guarded kept
  | put now allowed initial terminal real named fits takes =>
    exact .put now (hA allowed) initial terminal real named fits takes
  | sever severed held dates => exact .sever severed held dates
  | remove _ _ doomed live bare => exact .remove _ _ (hD _ doomed) live bare
  | demote _ _ doomed live out kept => exact .demote _ _ (hD _ doomed) live out kept

theorem Moves.mono (m : Moves D A x y) (hD : ∀ id, D id → D' id) (hA : A → A') :
    Moves D' A' x y := by
  induction m with
  | refl => exact .refl
  | tail _ m ih => exact ih.tail (m.mono hD hA)

/-! ## Giving guards up -/

namespace Store

variable {s : Store} {G : List Guard} {g : Guard}

theorem written_cons {c : CellId} : Written (g :: G) c ↔
    g.hold = .writer ∧ g.item.slot = c ∨ Written G c := by
  simp only [Written, List.mem_cons, exists_eq_or_imp]

theorem Written.append {c : CellId} (h : Written G c) (new : List Guard) :
    Written (new ++ G) c := by
  obtain ⟨g, hg, hc⟩ := h
  exact ⟨g, List.mem_append_right new hg, hc⟩

theorem surrender_of_ne_writer (hg : g.hold ≠ .writer) : s.surrender g = s := by
  rw [surrender, if_neg]
  simp [Guard.isWritable, hg]

theorem locks_surrender (s : Store) (g : Guard) : (s.surrender g).locks = s.locks := by
  rw [surrender]
  split
  · exact locks_collectOrphan s _
  · rfl

theorem drop_eq_surrender (s : Store) (g : Guard) :
    s.drop g = { s.surrender g with locks := s.locks.release g } := by
  rw [← locks_surrender s g]
  rfl

theorem steps_surrender (h : s.Guarded (g :: G)) : Steps (fun _ => True) s (s.surrender g) := by
  rw [surrender]
  split
  · exact (steps_collectOrphan trivial (h.item g List.mem_cons_self).1).1
  · exact .refl

/-- Giving a guard up changes no more than a mark of its vertex. -/
theorem fields_surrender (h : s.Guarded (g :: G)) (c : CellId) :
    ((s.surrender g).data c).out = (s.data c).out ∧
      ((s.surrender g).data c).inbound = (s.data c).inbound ∧
      ((s.surrender g).data c).forwardOnlyIn = (s.data c).forwardOnlyIn ∧
      ((s.surrender g).data c).manifestation = (s.data c).manifestation := by
  by_cases hg : g.hold = .writer
  · exact fields_drop h hg c
  · rw [surrender_of_ne_writer hg]
    exact ⟨rfl, rfl, rfl, rfl⟩

/-- Only an orphan goes, and only with the last guard that is on it. -/
theorem live_surrender_iff (h : s.Guarded (g :: G)) {c : CellId} :
    (s.surrender g).Live c ↔ s.Live c ∧
      ¬ (g.hold = .writer ∧ g.item.slot = c ∧ Guard.onSlot c G = [] ∧
        (s.data c).manifestation = .virtual ∧ (s.data c).degree = 0) := by
  by_cases hg : g.hold = .writer
  · have hlive : (s.surrender g).Live c ↔ (s.drop g).Live c := Iff.rfl
    rw [hlive, live_drop_iff h hg]
    simp only [hg, true_and]
  · rw [surrender_of_ne_writer hg]
    simp only [hg, false_and, not_false_eq_true, and_true]

/-- Guards on one cell are all a writer's, or none is. -/
theorem Guarded.written_of_onSlot {c : CellId} (h : s.Guarded (g :: G)) (hg : g.hold = .writer)
    (hc : g.item.slot = c) (hne : Guard.onSlot c G ≠ []) : Written G c := by
  obtain ⟨g', hg'⟩ := List.exists_mem_of_ne_nil _ hne
  obtain ⟨hm, hslot⟩ := Guard.mem_onSlot.1 hg'
  have hopen := LockTable.open_of_writer h.accounts List.mem_cons_self hg
  exact ⟨g', hm, (hopen g' (List.mem_cons_of_mem g hm) (hslot.trans hc.symm)).1, hslot⟩

end Store

/-! ## Moves are steps -/

theorem Move.steps (m : Move D A x y) (hx : x.Ordered agree) :
    Steps (fun _ => True) x.store y.store := by
  cases m with
  | locks => exact .single (.locks ..)
  | labels => exact .single (.labels ..)
  | schedule => exact .single (.schedule ..)
  | attributes _ _ _ _ keeps => exact .single (.attributes trivial keeps)
  | add fresh keyed kept bare => exact .single (.add fresh keyed kept bare)
  | give => exact (steps_surrender hx.guarded).tail (.locks ..)
  | put _ _ initial terminal => exact .single (.put trivial trivial initial terminal ..)
  | sever severed => exact Steps.mono severed.steps fun _ _ => trivial
  | remove _ _ _ live bare => exact .single (.remove trivial live bare)
  | demote =>
    exact .single (.attributes
      (f := fun d => { d with manifestation := .virtual, expires := none }) trivial
      fun _ => ⟨rfl, rfl, rfl, rfl, rfl⟩)

theorem Move.ordered (m : Move D A x y) (hx : x.Ordered agree) : y.Ordered agree := by
  have st := m.steps hx
  refine ⟨Steps.sound st hx.sound, ?_⟩
  have hsame : y.store.locks = x.store.locks → y.guards = x.guards → y.store.Guarded y.guards :=
    fun hl hG => hG ▸ hx.guarded.steps st hl
  cases m with
  | locks guarded => exact guarded
  | give guarded => exact guarded
  | sever severed => exact severed.guarded.less _
  | put _ _ initial terminal =>
    exact hsame (writing_putArc (W := fun _ => True) trivial trivial initial terminal ..).locks rfl
  | remove => exact hsame (locks_remove ..) rfl
  | _ => exact hsame rfl rfl

theorem Moves.ordered (m : Moves D A x y) (hx : x.Ordered agree) : y.Ordered agree := by
  induction m with
  | refl => exact hx
  | tail _ m ih => exact m.ordered ih

theorem Moves.steps (m : Moves D A x y) (hx : x.Ordered agree) :
    Steps (fun _ => True) x.store y.store := by
  induction m with
  | refl => exact .refl
  | tail hm m ih => exact ih.trans (m.steps (Moves.ordered hm hx))

/-! ## Labels and identifiers -/

/-- Steps leave the configuration alone. -/
theorem Store.Step.config {W : CellId → Prop} {s s' : Store} (st : Step W s s') :
    s'.config = s.config := by
  cases st with
  | remove =>
    rw [Store.remove, unlink]
    split <;> rfl
  | put =>
    rw [putArc_snd, countNew, putInward]
    split
    · rfl
    · split <;> rfl
  | @detach i t arc removed _ _ _ _ found =>
    rw [detach_of_arcAt? found, takeInward]
    split <;> rfl
  | _ => rfl

theorem Store.Steps.config {W : CellId → Prop} {s s' : Store} (st : Steps W s s') :
    s'.config = s.config := by
  induction st with
  | refl => rfl
  | tail _ st ih => exact st.config.trans ih

theorem Store.labels_putArc (s : Store) (i t : CellId) (relationship : LabelCode) (kind : ArcKind)
    (forwardOnly : Bool) (u : ArcUpdate) (now : UInt32) :
    (s.putArc i t relationship kind forwardOnly u now).2.labels = s.labels := by
  rw [putArc_snd, countNew, putInward]
  split
  · rfl
  · split <;> rfl

theorem Move.grows (m : Move D A x y) : x.store.labels.Grows y.store.labels := by
  have hsame : ∀ {l l' : Labels}, l' = l → l.Grows l' := fun h => h ▸ .refl
  cases m with
  | labels _ _ _ grown => exact grown
  | give =>
    rw [surrender]
    split
    · exact hsame (sameDates_collectOrphan ..).labels
    · exact .refl
  | put => exact hsame (labels_putArc ..)
  | sever _ _ dates => exact hsame dates.labels
  | remove => exact hsame (sameDates_remove ..).labels
  | _ => exact .refl

theorem Moves.grows (m : Moves D A x y) : x.store.labels.Grows y.store.labels := by
  induction m with
  | refl => exact .refl
  | tail _ m ih => exact ih.trans m.grows

end Arcbase
