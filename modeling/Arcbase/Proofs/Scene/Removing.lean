import Arcbase.Proofs.Action.Sweeping
import Arcbase.Proofs.Scene.Connecting
set_option autoImplicit false

/-!
# The moves of removing

A disconnect takes out no vertices but orphans.  A deletion may take out the vertex of its
identifier besides, or make it virtual, and a pass the vertices that were due.  None of them
writes arcs.
-/

namespace Arcbase.Action

open Store

variable {agree : Agreement} {D : String → Prop} {G : List Guard} {who : Caller} {id : String}
  {s s' : Store}

theorem move_held {c : CellId} {g : Guard} {locks : LockTable} {A : Prop}
    (h : HeldRun who id s c g locks) (hs : s.Sound agree) (hg : s.Guarded G) :
    Move D A ⟨G, [], s⟩ ⟨g :: G, [], { s with locks }⟩ := by
  refine move_acquire [g] (h.sound hs hg).2 (fun g' hm => ?_) fun _ hc =>
    absurd hc List.not_mem_nil
  rw [List.mem_singleton.1 hm, h.slot]
  exact (h.live hs).1

theorem HeldRun.written {c : CellId} {g : Guard} {locks : LockTable}
    (h : HeldRun who id s c g locks) (hg : s.Guarded G) : Written (g :: G) c :=
  ⟨g, List.mem_cons_self, h.writer hg, h.slot⟩

theorem Walked.move {c : CellId} {filter : ArcFilter} {direction : Direction}
    {toward : Option VertexKey} {rm : Removal} {A : Prop}
    (h : Walked who G c filter direction toward rm s s') (held : Written G c) :
    Move D A ⟨G, [], s⟩ ⟨G, [], s'.less rm.removed⟩ :=
  .sever h.run.severed held h.dates

/-! ## Deleting and disconnecting -/

theorem move_takenOut {c : CellId} {A : Prop} (doomed : D (s.cell c).id) (hc : s.Live c)
    (hout : (s.data c).out = .empty) (hdegree : (s.data c).degree = (s.data c).forwardOnlyIn) :
    Move D A ⟨G, [], s⟩ ⟨G, [], takenOut c s⟩ := by
  rw [takenOut]
  split
  next hpos => exact .demote _ _ doomed hc hout hpos
  next hzero => exact .remove _ _ doomed hc (hdegree.trans (Nat.eq_zero_of_not_pos hzero))

theorem DeleteRun.moves {r : Except Error Nat} (h : DeleteRun who id G s r s')
    (hs : s.Sound agree) (hg : s.Guarded G) (hD : D id) :
    Moves D False ⟨G, [], s⟩ ⟨G, [], s'⟩ := by
  have hstart : ∀ {c : CellId} {g : Guard} {locks : LockTable}, HeldRun who id s c g locks →
      Moves D False ⟨G, [], s⟩ ⟨g :: G, [], stripped who c s locks⟩ := fun held =>
    (move_held held hs hg).moves.tail
      (.attributes _ _ _ _ (keepsArcs_strip who.now) fun _ => .inl rfl)
  cases h with
  | refused => exact .refl
  | missing => exact .refl
  | @incomplete c g locks rm s₁ cause held walk =>
    obtain ⟨hs₁, _, hc₁⟩ := sound_stripped held hs hg
    obtain ⟨hs₂, hg₂, _⟩ := walk.sound hs₁ hc₁
    have hleft : Moves D False ⟨G, [], s⟩ ⟨g :: G, [], leftOver who id c (s₁.less rm.removed)⟩ :=
      (((hstart held).tail (walk.move (held.written hg))).tail (.attributes _ _ _ c
        (f := fun d => { d with expires := some who.now }) (fun _ => ⟨rfl, rfl, rfl, rfl, rfl⟩)
        fun _ => .inl rfl)).tail (.schedule ..)
    exact hleft.tail (move_drop (sound_leftOver hs₂ hg₂ id c).2)
  | @complete c g locks rm s₁ held walk free =>
    obtain ⟨hs₁, _, hc₁⟩ := sound_stripped held hs hg
    obtain ⟨hs₂, hg₂, hc₂⟩ := walk.sound hs₁ hc₁
    have hdegree := walk.degree hs₁ hc₁ free
    have hwalked := (hstart held).tail (walk.move (held.written hg))
    have hid : ((s₁.less rm.removed).cell c).id = id :=
      ((Steps.extends (Moves.steps hwalked ⟨hs, hg⟩)).id c (held.live hs).1.1).trans
        (held.live hs).2
    have hout : ((s₁.less rm.removed).data c).out = .empty :=
      walk.run.out_eq_empty free hs₁ hs₂ hc₁
    have hgone := hwalked.tail (move_takenOut (hid ▸ hD) hc₂ hout hdegree)
    exact hgone.tail (move_drop (sound_takenOut hs₂ hg₂ hc₂ hdegree).2)

theorem DisconnectRun.moves {anchor : String} {probe : Probe} {neighbor : Option String}
    {r : Except Error Nat} (h : DisconnectRun who anchor probe neighbor G s r s')
    (hs : s.Sound agree) (hg : s.Guarded G) : Moves D False ⟨G, [], s⟩ ⟨G, [], s'⟩ := by
  cases h with
  | refused => exact .refl
  | unfit => exact .refl
  | missing => exact .refl
  | alone held => exact (move_held held hs hg).moves.tail (move_drop (held.sound hs hg).2)
  | walked held _ _ walk =>
    have hc₁ := (held.live hs).1
    have hg₂ := (walk.sound (held.sound hs hg).1 hc₁).2.1
    exact ((move_held held hs hg).moves.tail (walk.move (held.written hg))).tail (move_drop hg₂)

/-! ## Passes -/

theorem moves_tryAll {items : List Expiring} (hs : s.Sound agree) (hg : s.Guarded G)
    (hD : ∀ id, .vertex id ∈ items → D id) :
    Moves D False ⟨G, [], s⟩ ⟨G, [], tryAll who items s⟩ := by
  induction items generalizing s with
  | nil => exact .refl
  | cons item rest ih =>
    have hfirst : Moves D False ⟨G, [], s⟩ ⟨G, [], ((expire who item).run s).2⟩ := by
      cases hrun : (expire who item).run s with
      | mk outcome s₁ =>
        cases run_expire hs hg hrun with
        | vertex run => exact run.moves hs hg (hD _ List.mem_cons_self)
        | arc run => exact run.moves hs hg
    have hordered := Moves.ordered hfirst ⟨hs, hg⟩
    exact hfirst.trans (ih hordered.sound hordered.guarded fun id hm =>
      hD id (List.mem_cons_of_mem item hm))

theorem steady_delete (hD : D id) :
    Steady agree D G (fun _ => True) (delete who id) Arcless fun _ _ => True := by
  intro s r s' hs hg _ hrun
  have hmoves := (run_delete hs hg hrun).moves hs hg hD
  cases r with
  | error e => exact hmoves
  | ok n => exact ⟨hmoves, trivial⟩

theorem steady_disconnect (anchor : String) (probe : Probe) (neighbor : Option String) :
    Steady agree D G (fun _ => True) (disconnect who anchor probe neighbor) Arcless
      fun _ _ => True := by
  intro s r s' hs hg _ hrun
  have hmoves := (run_disconnect hs hg hrun).moves (D := D) hs hg
  cases r with
  | error e => exact hmoves
  | ok n => exact ⟨hmoves, trivial⟩

/-- A pass takes out what is due. -/
theorem steady_runExpiration (time : UInt32) :
    Steady agree D G
      (fun s => ∀ id t, s.schedule.time? (.vertex id) = some t → t ≤ time → D id)
      (runExpiration who time) Arcless fun _ _ => True := by
  intro s r s' hs hg hdue hrun
  rcases run_runExpiration hrun with ⟨_, rfl, rfl⟩ | ⟨_, report, again, s₁, rfl, _, run, rfl⟩
  · exact .refl
  · obtain ⟨hs₀, hg₀⟩ := sound_popped hs hg time
    have hpopped : Moves D False ⟨G, [], s⟩ ⟨G, [], popped time s⟩ := Move.moves (.schedule ..)
    have htried : Moves D False ⟨G, [], popped time s⟩ ⟨G, [], s₁⟩ := by
      rw [run.store]
      refine moves_tryAll hs₀ hg₀ fun id hm => ?_
      obtain ⟨⟨t, item⟩, hpair, hitem⟩ := List.mem_map.1 hm
      obtain ⟨htime, hle⟩ := Schedule.mem_popDue_iff.1 hpair
      exact hdue id t (hitem ▸ htime) hle
    exact ⟨(hpopped.trans htried).tail (.schedule ..), trivial⟩

end Arcbase.Action
