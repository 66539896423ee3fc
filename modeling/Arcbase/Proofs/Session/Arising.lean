import Arcbase.Proofs.Session.Moving
import Arcbase.Proofs.Snapshot.Committing
set_option autoImplicit false

/-!
# Graphs whose label tables only grow

Reachable sessions whose label tables have lost nothing: other graphs that share them may
have added labels, that is all (`Arises`).  Then every code that is stored has its label.

Every such graph keeps the laws of its arcs (`Arises.lawful`), and one in use keeps its
virtual vertices in order (`Arises.kempt`).
-/

namespace Arcbase

open Arcbase.Action Store

/-- The sessions that come from an empty graph by operations of a given sort, on label
tables to which other graphs may add. -/
inductive Arises (ok : Operation → Prop) : Session → Prop where
  | start (config : Config) (relationships types : Nat) {labels : Labels}
      (grown : (Labels.withCapacity relationships types).Grows labels) :
      Arises ok (.new config labels)
  | step {s : Session} (before : Arises ok s) (who : Caller) (op : Operation) (allowed : ok op) :
      Arises ok (op.after who s)
  | relabel {s : Session} (before : Arises ok s) {labels : Labels}
      (grown : s.store.labels.Grows labels) : Arises ok { s with store := { s.store with labels } }

variable {ok : Operation → Prop} {s : Session}

theorem Arises.reach (h : Arises ok s) : Reach ok s := by
  induction h with
  | start config _ _ _ => exact .start config _
  | step _ who op allowed ih => exact ih.step who op allowed
  | relabel _ _ ih => exact ih.relabel _

/-- A restore adds labels at most. -/
theorem grows_restore (snapshot : Snapshot) (s : Store) :
    s.labels.Grows ((restore snapshot).run s).2.labels := by
  have hkept : Kept s snapshot (fun _ _ _ => True) (fun _ _ _ => True) True := by
    refine ⟨trivial, fun _ _ _ _ _ r _ _ _ _ => ?_, fun _ _ _ => trivial,
      fun _ _ _ _ _ r _ _ _ _ => ?_⟩
    · cases r <;> trivial
    · cases r <;> trivial
  cases hrun : (restore snapshot).run s with
  | mk r s' =>
    rcases fill_restore hkept hrun with ⟨_, _, l, hgrows, rfl⟩ | ⟨_, _, g, l, hgrows, _, rfl⟩
    · exact hgrows
    · rw [Staging.labels_commit]
      exact hgrows

theorem Operation.grows_after {agree : Agreement} (hs : s.Sound agree)
    (hv : s.store.labels.relationships.Valid) (who : Caller) (op : Operation) :
    s.store.labels.Grows (op.after who s).store.labels := by
  by_cases hlive : op.Live
  · exact Moves.grows (op.moves_after hs hv who hlive)
  · cases op with
    | ask r =>
      cases r with
      | restore snapshot => exact grows_restore snapshot s.store
      | _ => exact absurd rfl hlive
    | _ => exact absurd trivial hlive

theorem Arises.labels (h : Arises ok s) : s.store.labels.Valid := by
  induction h with
  | start _ relationships types grown => exact (Labels.valid_tables relationships types).grows grown
  | step before who op _ ih =>
    exact ih.grows (op.grows_after before.reach.sound ih.relationships who)
  | relabel _ grown ih => exact ih.grows grown

/-- Labels and codes stand for each other. -/
theorem Arises.valid (h : Arises ok s) : s.store.labels.relationships.Valid :=
  h.labels.relationships

/-! ## Laws -/

theorem lawful_new (config : Config) {labels : Labels} (hl : labels.Valid) :
    (Session.new config labels).store.Lawful := by
  have hnone : ∀ p, p ∉ (Session.new config labels).store.arcs := fun p => List.not_mem_nil
  exact ⟨fun p hp => absurd hp (hnone p), fun p hp => absurd hp (hnone p),
    ⟨hl.relationships, fun p hp => absurd hp (hnone p)⟩, fun c hc => absurd hc (Nat.not_lt_zero c)⟩

theorem lawful_restore {snapshot : Snapshot} {s' : Store} {r : Except Error Unit}
    (hs : s.Sound .slots) (hl : s.store.labels.Valid) (h : s.store.Lawful)
    (hrun : (restore snapshot).run s.store = (r, s')) : s'.Lawful := by
  have hs' := (sound_restore snapshot hrun hs.store).1
  rcases fill_restore (kept_staged snapshot hl) hrun with
    ⟨_, _, l, hgrows, rfl⟩ | ⟨_, hempty, g, l, _, hstaged, rfl⟩
  · exact Moves.lawful (D := fun _ => False) (A := False)
      (Move.moves (.labels s.guards [] _ hgrows))
      hs.ordered h
  · exact hstaged.lawful hempty h.wellNamed hs'

theorem Arises.lawful (h : Arises ok s) : s.store.Lawful := by
  induction h with
  | start config relationships types grown =>
    exact lawful_new config ((Labels.valid_tables relationships types).grows grown)
  | @step s before who op _ ih =>
    have hs := before.reach.sound
    by_cases hlive : op.Live
    · exact Moves.lawful (op.moves_after hs before.valid who hlive) hs.ordered ih
    · cases op with
      | ask r =>
        cases r with
        | restore snapshot => exact lawful_restore hs before.labels ih rfl
        | _ => exact absurd rfl hlive
      | _ => exact absurd trivial hlive
  | relabel before grown ih =>
    exact Moves.lawful (D := fun _ => False) (A := False) (Move.moves (.labels _ _ _ grown))
      before.reach.sound.ordered ih

/-! ## Graphs in use -/

/-- What holds of an empty graph, and is kept by moves and by more labels, holds of every
graph in use. -/
theorem Arises.invariant {I : Scene → Prop}
    (start : ∀ config relationships types labels,
      (Labels.withCapacity relationships types).Grows labels → I (Session.new config labels).scene)
    (moves : ∀ D x y, x.Ordered .equal → Moves D True x y → I x → I y)
    (h : Arises Operation.Live s) : I s.scene := by
  induction h with
  | start config relationships types grown => exact start config relationships types _ grown
  | step before who op allowed ih =>
    have hs := before.reach.sound_live
    exact moves _ _ _ hs.ordered (op.moves_after hs before.valid who allowed) ih
  | relabel before grown ih =>
    exact moves (fun _ => False) _ _ before.reach.sound_live.ordered
      (Move.moves (.labels _ _ _ grown)) ih

theorem Arises.kempt (h : Arises Operation.Live s) : s.scene.Kempt := by
  refine h.invariant (fun config _ _ labels _ => ?_) fun _ _ _ hx m hI => Moves.kempt m hx hI
  have hnone : ∀ c, ¬ (Session.new config labels).store.Virtual c := fun c hc =>
    Nat.not_lt_zero c hc.live.1
  exact ⟨fun c hc => absurd hc (hnone c), fun c hc => absurd hc (hnone c)⟩

end Arcbase
