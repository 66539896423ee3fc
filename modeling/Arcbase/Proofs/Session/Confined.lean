import Arcbase.Proofs.Action.Confined
import Arcbase.Proofs.Session.Reach
set_option autoImplicit false

/-!
# Operations confined to a relation

Whatever relation tolerates what happens to vertices apart from their arcs, and every arc
that is written, is kept by most operations: by all that open, close and read, by the
connects, and by changes of properties (`Tolerates.connectsOrReads`, `Tolerates.after`).
-/

namespace Arcbase

open Arcbase.Action Store

/-- Whether a request connects vertices, reads, or sets the flag that keeps the graph from
being written. -/
def Request.connectsOrReads {α : Type} : Request α → Bool
  | .create .. | .delete _ | .disconnect .. | .markExpiring .. | .runExpiration _
  | .restore _ => false
  | _ => true

namespace Action

variable {α : Type} {agree : Agreement} {I : Store → Prop} {R : Store → Store → Prop}
  {N : LabelCode → Store → Prop} {G : List Guard} {who : Caller} {s s' : Store} {P : Store → Prop}

theorem Confined.keeps {a : Action α} {Q : α → Store → Prop} {r : Except Error α}
    (h : Confined agree I R (fun _ => True) a Q) (hs : s.Sound agree) (hi : I s)
    (hrun : a.run s = (r, s')) : Keeps I R s s' := by
  obtain ⟨_, hi', hk, _⟩ := h s r s' hs hi trivial hrun
  exact ⟨hi', hk⟩

theorem Tolerates.connectsOrReads (tol : Tolerates agree who.now I R) [IsPreorder Store R]
    (hw : ∀ r u, u.Requested r.arc → Writes agree who.now I R N r u) {r : Request α}
    (hr : r.connectsOrReads = true) {out : Except Error α} (hs : s.Sound agree)
    (hg : s.Guarded G) (hi : I s) (hrun : (r.action who).run s = (out, s')) :
    Keeps I R s s' := by
  cases r with
  | create | delete | disconnect | markExpiring | runExpiration | restore => cases hr
  | contains id =>
    cases hrun
    exact ⟨hi, refl_of R _⟩
  | info id => exact tol.reading (quiet_vertexInfo id) hs hg hi hrun
  | connect r => exact (tol.connecting hw r).keeps hs hi hrun
  | count initial relationship terminal delta => exact (tol.counting hw _ _ _ _).keeps hs hi hrun
  | accumulate initial relationship terminal delta =>
    exact (tol.accumulating hw _ _ _ _).keeps hs hi hrun
  | addTo initial relationship terminal kind delta =>
    exact (tol.addingTo hw _ _ _ _ _).keeps hs hi hrun
  | arcValue initial probe terminal => exact tol.reading (quiet_arcValue _ _ _) hs hg hi hrun
  | adjacent anchor probe neighbor => exact tol.reading (quiet_adjacent _ _ _) hs hg hi hrun
  | degree anchor probe => exact tol.reading (quiet_degree _ _) hs hg hi hrun
  | neighborhood q => exact tol.reading (quiet_neighborhood q) hs hg hi hrun
  | aggregate q => exact tol.reading (quiet_aggregate q) hs hg hi hrun
  | terminals anchor relationship timeout =>
    exact tol.reading (quiet_ofNeighborhood _ _) hs hg hi hrun
  | initials anchor relationship timeout =>
    exact tol.reading (quiet_ofNeighborhood _ _) hs hg hi hrun
  | outarcs anchor timeout => exact tol.reading (quiet_ofNeighborhood _ _) hs hg hi hrun
  | inarcs anchor timeout => exact tol.reading (quiet_ofNeighborhood _ _) hs hg hi hrun
  | setReadonly =>
    cases hrun
    exact tol.locks s _ hi
  | clearReadonly =>
    cases hrun
    exact tol.locks s _ hi
  | markArcExpiring initial relationship terminal time =>
    exact (tol.markingArc hw _ _ _ _).keeps hs hi hrun
  | snapshot => exact tol.reading quiet_snapshot hs hg hi hrun

/-! ## Handles -/

section Closing

variable {agree : Agreement} {I : Store → Prop} {R : Store → Store → Prop} {who : Caller}
  {s : Session} (tol : ToleratesLosses agree who.now I R) [IsPreorder Store R]
include tol

theorem ToleratesLosses.closing (hs : s.store.Sound agree) (hi : I s.store) (name : GuardName) :
    (s.close name).store.Sound agree ∧ Keeps I R s.store (s.close name).store := by
  unfold Session.close
  split
  · exact tol.dropping hs hi _
  · exact ⟨hs, hi, refl_of R _⟩

theorem ToleratesLosses.keepingAll (hs : s.store.Sound agree) (hi : I s.store) (u : Thread)
    (names : List String) (guards : List Guard) :
    (s.keepAll u names guards).store.Sound agree ∧
      Keeps I R s.store (s.keepAll u names guards).store := by
  induction guards generalizing s names with
  | nil => cases names <;> exact ⟨hs, hi, refl_of R _⟩
  | cons g rest ih =>
    cases names with
    | nil =>
      obtain ⟨hs₁, hi₁, hk₁⟩ := tol.dropping hs hi g
      obtain ⟨hs₂, hi₂, hk₂⟩ := ih (s := { s with store := s.store.drop g }) hs₁ hi₁ []
      exact ⟨hs₂, hi₂, trans_of R hk₁ hk₂⟩
    | cons name names =>
      obtain ⟨hs₁, hi₁, hk₁⟩ := tol.closing hs hi ⟨u, name⟩
      obtain ⟨hs₂, hi₂, hk₂⟩ := ih (s := s.keep ⟨u, name⟩ g) hs₁ hi₁ names
      exact ⟨hs₂, hi₂, trans_of R hk₁ hk₂⟩

end Closing

section Handles

variable {agree : Agreement} {I : Store → Prop} {R : Store → Store → Prop} {who : Caller}
  {s : Session} (tol : Tolerates agree who.now I R) [IsPreorder Store R]
include tol

theorem Tolerates.keepingVertex (hs : s.store.Sound agree) (hi : I s.store) (name id : String)
    (mode : OpenMode) : Keeps I R s.store (s.openVertex who name id mode).2.store := by
  cases hrun : (Action.openVertex who id mode).run s.store with
  | mk r store =>
    obtain ⟨hs₁, hi₁, hk₁, _⟩ := tol.openingVertex id mode s.store r store hs hi trivial hrun
    cases r with
    | error e =>
      simp only [Session.openVertex, Session.perform, hrun]
      exact ⟨hi₁, hk₁⟩
    | ok g =>
      simp only [Session.openVertex, Session.perform, hrun]
      obtain ⟨_, hi₂, hk₂⟩ := tol.closing (s := { s with store }) hs₁ hi₁ ⟨who.thread, name⟩
      exact ⟨hi₂, trans_of R hk₁ hk₂⟩

theorem Tolerates.keepingVertices (hs : s.store.Sound agree) (hi : I s.store)
    (names ids : List String) (mode : OpenMode) :
    Keeps I R s.store (s.openVertices who names ids mode).2.store := by
  cases hrun : (Action.openVertices who ids mode).run s.store with
  | mk r store =>
    obtain ⟨hs₁, hi₁, hk₁, _⟩ := tol.openingVertices ids mode s.store r store hs hi trivial hrun
    cases r with
    | error e =>
      simp only [Session.openVertices, Session.perform, hrun]
      exact ⟨hi₁, hk₁⟩
    | ok guards =>
      simp only [Session.openVertices, Session.perform, hrun]
      obtain ⟨_, hi₂, hk₂⟩ :=
        tol.keepingAll (s := { s with store }) hs₁ hi₁ who.thread names guards
      exact ⟨hi₂, trans_of R hk₁ hk₂⟩

omit tol [IsPreorder Store R] in
theorem store_escalate {name : GuardName} {p : Except Error LockMode × Session}
    (h : s.escalate name = some p) :
    ∃ g, p.2.store = ((Action.escalate g).run s.store).2 := by
  obtain ⟨g, _, rfl⟩ := Option.map_eq_some_iff.1 h
  refine ⟨g, ?_⟩
  cases hrun : (Action.escalate g).run s.store with
  | mk r store => cases r <;> simp only [Session.perform, hrun]

omit tol [IsPreorder Store R] in
theorem store_relax {name : GuardName} {p : Except Error (Option HandleView) × Session}
    (h : s.relax name = some p) : ∃ g, p.2.store = ((Action.relax g).run s.store).2 := by
  obtain ⟨g, _, rfl⟩ := Option.map_eq_some_iff.1 h
  refine ⟨g, ?_⟩
  cases hrun : (Action.relax g).run s.store with
  | mk r store =>
    cases r with
    | error e => simp only [Session.perform, hrun]
    | ok relaxed => cases relaxed <;> simp only [Session.perform, hrun]

/-- Apart from requests and from setting when a vertex expires, every operation keeps what
the relation keeps. -/
theorem Tolerates.after (hs : s.store.Sound agree) (hi : I s.store) (op : Operation)
    (hask : ∀ (α : Type) (r : Request α), op = .ask r →
      Keeps I R s.store ((r.action who).run s.store).2)
    (htime : ∀ name g time, op = .askHandle name (.setExpiration time) →
      s.handle? ⟨who.thread, name⟩ = some g →
        Keeps I R s.store ((setExpiration g time).run s.store).2) :
    Keeps I R s.store (op.after who s).store := by
  cases op with
  | ask r => exact hask _ r rfl
  | openVertex name id mode => exact tol.keepingVertex hs hi name id mode
  | openVertices names ids mode => exact tol.keepingVertices hs hi names ids mode
  | @askHandle α name r =>
    cases hheld : s.handle? ⟨who.thread, name⟩ with
    | none =>
      simp only [Operation.after, Session.askHandle, hheld, Option.map_none, Option.getD_none]
      exact ⟨hi, refl_of R _⟩
    | some g =>
      have hstore : (Operation.after who (.askHandle name r) s).store =
          ((r.action who g).run s.store).2 := by
        simp only [Operation.after, Session.askHandle, hheld, Option.map_some, Option.getD_some]
        rfl
      rw [hstore]
      cases r with
      | view => exact ⟨hi, refl_of R _⟩
      | setProperty key value => exact (tol.settingProperty g key value).keeps hs hi rfl
      | removeProperty key => exact (tol.removingProperty g key).keeps hs hi rfl
      | setVector vector => exact (tol.settingVector g vector).keeps hs hi rfl
      | setExpiration time => exact htime name g time rfl hheld
  | escalate name =>
    cases hrun : s.escalate ⟨who.thread, name⟩ with
    | none =>
      simp only [Operation.after, hrun, Option.map_none, Option.getD_none]
      exact ⟨hi, refl_of R _⟩
    | some p =>
      simp only [Operation.after, hrun, Option.map_some, Option.getD_some]
      obtain ⟨g, hstore⟩ := store_escalate hrun
      rw [hstore]
      exact (tol.escalating g).keeps hs hi rfl
  | relax name =>
    cases hrun : s.relax ⟨who.thread, name⟩ with
    | none =>
      simp only [Operation.after, hrun, Option.map_none, Option.getD_none]
      exact ⟨hi, refl_of R _⟩
    | some p =>
      simp only [Operation.after, hrun, Option.map_some, Option.getD_some]
      obtain ⟨g, hstore⟩ := store_relax hrun
      rw [hstore]
      exact (tol.relaxing g).keeps hs hi rfl
  | close name => exact (tol.closing hs hi ⟨who.thread, name⟩).2

end Handles

end Action

end Arcbase
