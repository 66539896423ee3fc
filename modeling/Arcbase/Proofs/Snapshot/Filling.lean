import Arcbase.Proofs.Action.Orderly
import Arcbase.Proofs.Labels
import Arcbase.Proofs.Snapshot.Restoring
set_option autoImplicit false

/-!
# How a restore goes

A vertex or an arc of a snapshot is staged in one of a few ways, told here with the label
tables before and after (`VertexStaged`, `ArcStaged`).  What one of these keeps, of the
part of the snapshot that has been staged so far, a whole restore keeps (`fill_restore`).
Whether it succeeds or not, label tables only grow.
-/

namespace Arcbase

/-- A vertex of a snapshot as it is staged, with the code of its type. -/
def VertexSnapshot.toCell (v : VertexSnapshot) (type : Option LabelCode) : Cell :=
  { id := v.id
    key := .of v.id
    data :=
      { type
        manifestation := v.manifestation
        created := v.created
        modified := v.modified
        expires := v.expires
        properties := v.properties
        vector := v.vector } }

namespace Staging

/-- What is staged with one more vertex. -/
def addVertex (g : Staging) (v : VertexSnapshot) (type : Option LabelCode) : Staging :=
  { g with cells := g.cells.insert (.of v.id) (v.toCell type) }

/-- Vertices that are put in change nothing but the cells and the table. -/
theorem foldl_addCell (cells : List Cell) (s : Store) :
    ∃ cells' table, cells.foldl Store.addCell s = { s with cells := cells', table } := by
  induction cells generalizing s with
  | nil => exact ⟨s.cells, s.table, rfl⟩
  | cons new rest ih =>
    obtain ⟨cells', table, h⟩ := ih (s.addCell new)
    exact ⟨cells', table, h⟩

theorem labels_commit (g : Staging) (s : Store) : (g.commit s).labels = s.labels := by
  obtain ⟨schedule, hcommit⟩ := g.stagedOn_commit s
  obtain ⟨cells', table, hcells⟩ := foldl_addCell g.cells.values s
  rw [hcommit, stagedOn, hcells]

end Staging

namespace Action

open Store

/-- What holds of an answer, or else because there is none. -/
def Yields {α : Type} (r : Except Error α) (Q : α → Prop) (F : Prop) : Prop :=
  match r with
  | .ok x => Q x
  | .error _ => F

/-- The ways in which the staging of a vertex may go. -/
inductive VertexStaged (s : Store) (v : VertexSnapshot) (g : Staging) (l : Labels) :
    Except Error Staging → Labels → Prop where
  | faulty {fault : VertexFault} (found : s.identifierFault? v.id = some fault) :
      VertexStaged s v g l (.error (.vertex fault)) l
  | repeated {other : Cell} {e : Error} (found : g.cells.get? (.of v.id) = some other) :
      VertexStaged s v g l (.error e) l
  | full {label : String} {e : Error} (wanted : v.type = some label)
      (fault : (l.encodeType label).1 = .error e) :
      VertexStaged s v g l (.error e) (l.encodeType label).2
  | untyped (named : s.identifierFault? v.id = none) (new : g.cells.get? (.of v.id) = none)
      (wanted : v.type = none) : VertexStaged s v g l (.ok (g.addVertex v none)) l
  | typed {label : String} {code : LabelCode} (named : s.identifierFault? v.id = none)
      (new : g.cells.get? (.of v.id) = none) (wanted : v.type = some label)
      (coded : (l.encodeType label).1 = .ok code) :
      VertexStaged s v g l (.ok (g.addVertex v (some code))) (l.encodeType label).2

/-- The ways in which the staging of an arc may go. -/
inductive ArcStaged (a : ArcSnapshot) (g : Staging) (l : Labels) :
    Except Error Staging → Labels → Prop where
  | faulty {e : Error} (found : g.arcFault? a = some e) : ArcStaged a g l (.error e) l
  | full {e : Error} (fault : (l.encodeRelationship a.relationship).1 = .error e) :
      ArcStaged a g l (.error e) (l.encodeRelationship a.relationship).2
  | coded {code : LabelCode} (sound : g.arcFault? a = none)
      (coded : (l.encodeRelationship a.relationship).1 = .ok code) :
      ArcStaged a g l (.ok (g.addArc a code)) (l.encodeRelationship a.relationship).2

variable {s s' : Store} {v : VertexSnapshot} {a : ArcSnapshot} {g : Staging} {l l' : Labels}
  {r : Except Error Staging}

theorem run_stageVertex (hrun : (stageVertex g v).run { s with labels := l } = (r, s')) :
    ∃ l', s' = { s with labels := l' } ∧ VertexStaged s v g l r l' := by
  rw [stageVertex, run_bind, read, run_ofFun] at hrun
  have hfault : identifierFault? { s with labels := l } v.id = s.identifierFault? v.id := rfl
  rw [hfault] at hrun
  cases hnamed : s.identifierFault? v.id with
  | some fault =>
    rw [hnamed] at hrun
    cases hrun
    exact ⟨l, rfl, .faulty hnamed⟩
  | none =>
    rw [hnamed] at hrun
    simp only [refuse, run_bind, run_pure] at hrun
    cases hnew : g.cells.get? (.of v.id) with
    | some other =>
      rw [hnew] at hrun
      cases hrun
      exact ⟨l, rfl, .repeated hnew⟩
    | none =>
      rw [hnew] at hrun
      dsimp only at hrun
      rw [run_bind] at hrun
      cases hwanted : v.type with
      | none =>
        rw [hwanted] at hrun
        cases hrun
        exact ⟨l, rfl, .untyped hnamed hnew hwanted⟩
      | some label =>
        have hencode : ((some label).mapM encodeType).run { s with labels := l } =
            ((l.encodeType label).1.map some, { s with labels := (l.encodeType label).2 }) := by
          change ((encodeType label) >>= _).run _ = _
          rw [run_bind, encodeType, run_ofFun]
          dsimp only
          cases (l.encodeType label).1 <;> rfl
        rw [hwanted, hencode] at hrun
        cases hcoded : (l.encodeType label).1 with
        | error e =>
          rw [hcoded] at hrun
          cases hrun
          exact ⟨_, rfl, .full hwanted hcoded⟩
        | ok code =>
          rw [hcoded] at hrun
          cases hrun
          exact ⟨_, rfl, .typed hnamed hnew hwanted hcoded⟩

theorem run_stageArc (hrun : (stageArc g a).run { s with labels := l } = (r, s')) :
    ∃ l', s' = { s with labels := l' } ∧ ArcStaged a g l r l' := by
  rw [stageArc] at hrun
  cases hfault : g.arcFault? a with
  | some e =>
    rw [hfault] at hrun
    cases hrun
    exact ⟨l, rfl, .faulty hfault⟩
  | none =>
    rw [hfault] at hrun
    dsimp only at hrun
    rw [run_bind, encodeRelationship, run_ofFun] at hrun
    dsimp only at hrun
    cases hcoded : (l.encodeRelationship a.relationship).1 with
    | error e =>
      rw [hcoded] at hrun
      cases hrun
      exact ⟨_, rfl, .full hcoded⟩
    | ok code =>
      rw [hcoded] at hrun
      cases hrun
      exact ⟨_, rfl, .coded hfault hcoded⟩

theorem VertexStaged.grows (h : VertexStaged s v g l r l') : l.Grows l' := by
  cases h with
  | full => exact .type .refl _
  | typed => exact .type .refl _
  | _ => exact .refl

theorem ArcStaged.grows (h : ArcStaged a g l r l') : l.Grows l' := by
  cases h with
  | faulty => exact .refl
  | _ => exact .relationship .refl _

/-! ## Folds -/

/-- What holds at first, and after every item that has been taken in, holds in the end. -/
theorem run_foldlM {α β : Type} {xs : List α} {f : β → α → Action β}
    {I : List α → β → Labels → Prop} {F : Prop}
    (grown : ∀ b x l r s', (f b x).run { s with labels := l } = (r, s') →
      ∃ l', l.Grows l' ∧ s' = { s with labels := l' })
    (step : ∀ done x rest b l r l', xs = done ++ x :: rest → I done b l →
      (f b x).run { s with labels := l } = (r, { s with labels := l' }) →
      Yields r (fun b' => I (done ++ [x]) b' l') F)
    {b : β} (start : I [] b l) {r : Except Error β}
    (hrun : (xs.foldlM f b).run { s with labels := l } = (r, s')) :
    ∃ l', l.Grows l' ∧ s' = { s with labels := l' } ∧ Yields r (fun b' => I xs b' l') F := by
  have hrest : ∀ (rest done : List α) (b : β) (l : Labels), xs = done ++ rest → I done b l →
      ∀ r s', (rest.foldlM f b).run { s with labels := l } = (r, s') →
      ∃ l', l.Grows l' ∧ s' = { s with labels := l' } ∧ Yields r (fun b' => I xs b' l') F := by
    intro rest
    induction rest with
    | nil =>
      intro done b l hxs hI r s' hrun
      cases hrun
      exact ⟨l, .refl, rfl, (hxs.trans (List.append_nil done)) ▸ hI⟩
    | cons x rest ih =>
      intro done b l hxs hI r s' hrun
      rw [List.foldlM_cons, run_bind] at hrun
      cases hfirst : (f b x).run { s with labels := l } with
      | mk r₁ s₁ =>
        obtain ⟨l₁, hgrows, rfl⟩ := grown b x l r₁ s₁ hfirst
        have hstep := step done x rest b l r₁ l₁ hxs hI hfirst
        rw [hfirst] at hrun
        cases r₁ with
        | error e =>
          cases hrun
          exact ⟨l₁, hgrows, rfl, hstep⟩
        | ok b' =>
          obtain ⟨l', hgrows', hs', hend⟩ := ih (done ++ [x]) b' l₁
            (hxs.trans (List.append_cons done x rest)) hstep r s' hrun
          exact ⟨l', hgrows.trans hgrows', hs', hend⟩
  exact hrest xs [] b l rfl start r s' hrun

/-! ## The whole restore -/

/-- What is kept of the vertices and then of the arcs that have been staged. -/
structure Kept (s : Store) (snapshot : Snapshot) (V : List VertexSnapshot → Staging → Labels → Prop)
    (A : List ArcSnapshot → Staging → Labels → Prop) (F : Prop) : Prop where
  start : V [] {} s.labels
  vertex : ∀ done v rest g l r l', snapshot.vertices = done ++ v :: rest → V done g l →
    VertexStaged s v g l r l' →
    Yields r (fun g' => V (done ++ [v]) g' l') F
  middle : ∀ g l, V snapshot.vertices g l → A [] g l
  arc : ∀ done a rest g l r l', snapshot.arcs = done ++ a :: rest → A done g l →
    ArcStaged a g l r l' →
    Yields r (fun g' => A (done ++ [a]) g' l') F

theorem fill_restore {snapshot : Snapshot} {V : List VertexSnapshot → Staging → Labels → Prop}
    {A : List ArcSnapshot → Staging → Labels → Prop} {F : Prop} (h : Kept s snapshot V A F)
    {r : Except Error Unit} (hrun : (restore snapshot).run s = (r, s')) :
    (∃ e, r = .error e) ∧ (F ∨ s.locks.readonly = true ∨ 0 < s.order) ∧
        (∃ l, s.labels.Grows l ∧ s' = { s with labels := l }) ∨
      r = .ok () ∧ s.table = .empty ∧
        ∃ g l, s.labels.Grows l ∧ A snapshot.arcs g l ∧ s' = g.commit { s with labels := l } := by
  rw [restore, run_bind, run_checkWritable] at hrun
  cases hreadonly : s.locks.readonly with
  | true =>
    rw [hreadonly, if_pos rfl] at hrun
    cases hrun
    exact .inl ⟨⟨_, rfl⟩, .inr (.inl rfl), s.labels, .refl, rfl⟩
  | false =>
    rw [hreadonly, if_neg Bool.false_ne_true] at hrun
    dsimp only at hrun
    rw [run_bind] at hrun
    cases hvertices : (snapshot.vertices.foldlM stageVertex {}).run s with
    | mk r₁ s₁ =>
      obtain ⟨l₁, hgrows₁, rfl, hend₁⟩ := run_foldlM (s := s) (l := s.labels) (I := V) (F := F)
        (fun b x l r s' hrun => by
          obtain ⟨l', rfl, hstaged⟩ := run_stageVertex hrun
          exact ⟨l', hstaged.grows, rfl⟩)
        (fun done x rest b l r l' hxs hI hrun => by
          obtain ⟨l'', hs', hstaged⟩ := run_stageVertex hrun
          obtain rfl : l' = l'' := congrArg Store.labels hs'
          exact h.vertex done x rest b l r l' hxs hI hstaged) h.start hvertices
      rw [hvertices] at hrun
      cases r₁ with
      | error e =>
        cases hrun
        exact .inl ⟨⟨e, rfl⟩, .inl hend₁, l₁, hgrows₁, rfl⟩
      | ok g₁ =>
        dsimp only at hrun
        rw [run_bind] at hrun
        cases harcs : (snapshot.arcs.foldlM stageArc g₁).run { s with labels := l₁ } with
        | mk r₂ s₂ =>
          obtain ⟨l₂, hgrows₂, rfl, hend₂⟩ := run_foldlM (s := s) (l := l₁) (I := A) (F := F)
            (fun b x l r s' hrun => by
              obtain ⟨l', rfl, hstaged⟩ := run_stageArc hrun
              exact ⟨l', hstaged.grows, rfl⟩)
            (fun done x rest b l r l' hxs hI hrun => by
              obtain ⟨l'', hs', hstaged⟩ := run_stageArc hrun
              obtain rfl : l' = l'' := congrArg Store.labels hs'
              exact h.arc done x rest b l r l' hxs hI hstaged) (h.middle g₁ l₁ hend₁) harcs
          have hgrows := hgrows₁.trans hgrows₂
          rw [harcs] at hrun
          cases r₂ with
          | error e =>
            cases hrun
            exact .inl ⟨⟨e, rfl⟩, .inl hend₂, l₂, hgrows, rfl⟩
          | ok g₂ =>
            dsimp only at hrun
            rw [run_bind] at hrun
            by_cases hfull : 0 < s.order
            · have hfull' : 0 < ({ s with labels := l₂ } : Store).order := hfull
              simp only [read, run_ofFun, hfull', if_true, run_bind, fail, ofExcept] at hrun
              cases hrun
              exact .inl ⟨⟨_, rfl⟩, .inr (.inr hfull), l₂, hgrows, rfl⟩
            · have hfull' : ¬ 0 < ({ s with labels := l₂ } : Store).order := hfull
              simp only [read, run_ofFun, hfull', if_false, update] at hrun
              cases hrun
              have htable := AssocMap.eq_empty_of_size_eq_zero (Nat.eq_zero_of_not_pos hfull)
              exact .inr ⟨rfl, htable, g₂, l₂, hgrows, hend₂, rfl⟩

end Action

end Arcbase
