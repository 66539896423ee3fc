import Arcbase.Proofs.Snapshot.Staging
import Arcbase.Proofs.Store.Guarded
set_option autoImplicit false

/-!
# Restoring a snapshot

A restore that fails changes nothing but the label tables.  One that succeeds finds an
empty graph and leaves a sound one, in which the two sides of an arc agree slot by
slot (`sound_restore`).
-/

namespace Arcbase.Action

open Store

variable {α β : Type} {s s' : Store}

/-- The action changes nothing but the label tables. -/
def Labelling (a : Action α) (Q : α → Prop) : Prop :=
  ∀ s r s', a.run s = (r, s') → s' = { s with labels := s'.labels } ∧ ∀ x, r = .ok x → Q x

theorem labelling_pure {x : α} {Q : α → Prop} (h : Q x) : Labelling (pure x) Q := by
  intro s r s' hrun
  cases hrun
  exact ⟨rfl, fun y hy => Except.ok.inj hy ▸ h⟩

theorem labelling_fail {e : Error} {Q : α → Prop} : Labelling (fail e) Q := by
  intro s r s' hrun
  cases hrun
  exact ⟨rfl, fun _ hx => nomatch hx⟩

theorem labelling_read {f : Store → α} : Labelling (read f) fun _ => True := by
  intro s r s' hrun
  cases hrun
  exact ⟨rfl, fun _ _ => trivial⟩

theorem labelling_bind {a : Action α} {f : α → Action β} {M : α → Prop} {Q : β → Prop}
    (ha : Labelling a M) (hf : ∀ x, M x → Labelling (f x) Q) : Labelling (a >>= f) Q := by
  intro s r s' hrun
  rw [run_bind] at hrun
  cases hrun₁ : a.run s with
  | mk r₁ s₁ =>
    rw [hrun₁] at hrun
    obtain ⟨hsame₁, hm⟩ := ha s r₁ s₁ hrun₁
    cases r₁ with
    | error e =>
      cases hrun
      exact ⟨hsame₁, fun _ hx => nomatch hx⟩
    | ok x =>
      obtain ⟨hsame₂, hq⟩ := hf x (hm x rfl) s₁ r s' hrun
      refine ⟨?_, hq⟩
      rw [hsame₂, hsame₁]

theorem labelling_foldlM (xs : List α) {f : β → α → Action β} {I : β → Prop} {b : β} (hb : I b)
    (h : ∀ b, I b → ∀ x ∈ xs, Labelling (f b x) I) : Labelling (xs.foldlM f b) I := by
  induction xs generalizing b with
  | nil => exact labelling_pure hb
  | cons x rest ih =>
    rw [List.foldlM_cons]
    exact labelling_bind (h b hb x List.mem_cons_self) fun b' hb' =>
      ih hb' fun b hb y hy => h b hb y (List.mem_cons_of_mem x hy)

theorem labelling_mapM {xs : List α} {f : α → Action β} (h : ∀ x, Labelling (f x) fun _ => True) :
    Labelling (xs.mapM f) fun _ => True := by
  induction xs with
  | nil => exact labelling_pure trivial
  | cons x rest ih =>
    rw [List.mapM_cons]
    exact labelling_bind (h x) fun _ _ => labelling_bind ih fun _ _ => labelling_pure trivial

theorem labelling_refuse {fault : Option VertexFault} : Labelling (refuse fault) fun _ => True := by
  cases fault with
  | none => exact labelling_pure trivial
  | some f => exact labelling_fail

theorem labelling_encodeType {label : String} : Labelling (encodeType label) fun _ => True := by
  intro s r s' hrun
  cases hrun
  exact ⟨rfl, fun _ _ => trivial⟩

theorem labelling_encodeRelationship {label : String} :
    Labelling (encodeRelationship label) fun _ => True := by
  intro s r s' hrun
  cases hrun
  exact ⟨rfl, fun _ _ => trivial⟩

theorem labelling_checkWritable : Labelling checkWritable fun _ => True := by
  intro s r s' hrun
  cases hrun
  exact ⟨rfl, fun _ _ => trivial⟩

/-- What comes of an action that begins with one that changes only labels. -/
theorem run_labelling_bind {a : Action α} {f : α → Action β} {M : α → Prop}
    {r : Except Error β} (ha : Labelling a M) (hrun : (a >>= f).run s = (r, s')) :
    (∃ e, r = .error e ∧ s' = { s with labels := s'.labels }) ∨
      ∃ x labels, M x ∧ (f x).run { s with labels } = (r, s') := by
  rw [run_bind] at hrun
  cases hrun₁ : a.run s with
  | mk r₁ s₁ =>
    rw [hrun₁] at hrun
    obtain ⟨hsame, hm⟩ := ha s r₁ s₁ hrun₁
    cases r₁ with
    | error e =>
      cases hrun
      exact .inl ⟨e, rfl, hsame⟩
    | ok x =>
      rw [hsame] at hrun
      exact .inr ⟨x, _, hm x rfl, hrun⟩

/-! ## Staging -/

theorem labelling_stageVertex {g : Staging} (hg : g.Good) (v : VertexSnapshot) :
    Labelling (stageVertex g v) Staging.Good := by
  refine labelling_bind labelling_read fun _ _ => labelling_bind labelling_refuse fun _ _ => ?_
  dsimp only
  cases hfound : g.cells.get? (.of v.id) with
  | some other => exact labelling_fail
  | none =>
    refine labelling_bind (M := fun _ => True) ?_ fun type _ => labelling_pure ?_
    · cases v.type with
      | none => exact labelling_pure trivial
      | some label => exact labelling_bind labelling_encodeType fun _ _ => labelling_pure trivial
    · exact Staging.good_stageVertex hg ⟨v.id, .of v.id, _⟩ rfl rfl ⟨rfl, rfl, rfl⟩ hfound

theorem labelling_stageArc {g : Staging} (hg : g.Good) (a : ArcSnapshot) :
    Labelling (stageArc g a) Staging.Good := by
  unfold stageArc
  cases hfault : g.arcFault? a with
  | some e => exact labelling_fail
  | none =>
    exact labelling_bind labelling_encodeRelationship fun relationship _ =>
      labelling_pure (Staging.good_addArc hg hfault relationship)

/-! ## The whole restore -/

/-- What comes of a restore: nothing but labels, or the staged vertices. -/
theorem run_restore {snapshot : Snapshot} {r : Except Error Unit}
    (hrun : (restore snapshot).run s = (r, s')) :
    (∃ e, r = .error e ∧ s' = { s with labels := s'.labels }) ∨
      r = .ok () ∧ s.table = .empty ∧
        ∃ (g : Staging) (labels : Labels), g.Good ∧ s' = g.commit { s with labels } := by
  rcases run_labelling_bind labelling_checkWritable hrun with h | ⟨_, l₁, _, hrun⟩
  · exact .inl h
  have hvertices := labelling_foldlM snapshot.vertices Staging.good_empty
    fun g hg v _ => labelling_stageVertex hg v
  rcases run_labelling_bind hvertices hrun with h | ⟨g₁, l₂, hg₁, hrun⟩
  · exact .inl h
  have harcs := labelling_foldlM snapshot.arcs hg₁ fun g hg a _ => labelling_stageArc hg a
  rcases run_labelling_bind harcs hrun with h | ⟨g, l₃, hg, hrun⟩
  · exact .inl h
  rw [run_bind] at hrun
  by_cases hempty : 0 < s.order
  · have hempty' : 0 < ({ s with labels := l₃ } : Store).order := hempty
    simp only [read, run_ofFun, hempty', if_true, run_bind, fail, ofExcept] at hrun
    cases hrun
    exact .inl ⟨_, rfl, rfl⟩
  · have hempty' : ¬ 0 < ({ s with labels := l₃ } : Store).order := hempty
    simp only [read, run_ofFun, hempty', if_false, update] at hrun
    cases hrun
    have htable := AssocMap.eq_empty_of_size_eq_zero (Nat.eq_zero_of_not_pos hempty)
    exact .inr ⟨rfl, htable, g, l₃, hg, rfl⟩

/-- A store that has been restored is sound, and has the locks of before. -/
theorem sound_restore (snapshot : Snapshot) {r : Except Error Unit}
    (hrun : (restore snapshot).run s = (r, s')) (hs : s.Sound .slots) :
    s'.Sound .slots ∧ s.Extends s' ∧ s'.locks = s.locks := by
  have hlabels : ∀ labels, Sound .slots { s with labels } ∧ s.Extends { s with labels } :=
    fun labels =>
      have st : Steps (fun _ => True) s { s with labels } := .single (.labels s labels)
      ⟨Steps.sound st hs, Steps.extends st⟩
  rcases run_restore hrun with ⟨_, _, h⟩ | ⟨_, hempty, g, labels, hg, rfl⟩
  · rw [h]
    exact ⟨(hlabels _).1, (hlabels _).2, rfl⟩
  · obtain ⟨schedule, hcommit⟩ := g.stagedOn_commit { s with labels }
    have hstaged := hg.sound _ (hlabels labels).1 hempty
    have hadd : ∀ (cells : List Cell) (s : Store), s.Extends (cells.foldl addCell s) ∧
        (cells.foldl addCell s).locks = s.locks := by
      intro cells
      induction cells with
      | nil => exact fun s => ⟨.refl s, rfl⟩
      | cons new rest ih =>
        intro s
        obtain ⟨hextends, hlocks⟩ := ih (s.addCell new)
        exact ⟨(extends_addCell s new).trans hextends, hlocks⟩
    obtain ⟨hextends, hlocks⟩ := hadd g.cells.values { s with labels }
    rw [hcommit]
    refine ⟨(Step.schedule (W := fun _ => True) _ schedule).sound hstaged, ?_, hlocks⟩
    exact (hlabels labels).2.trans ⟨hextends.count, hextends.id, hextends.key⟩

end Arcbase.Action
