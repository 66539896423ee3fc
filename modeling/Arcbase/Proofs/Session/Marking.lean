import Arcbase.Proofs.Action.Turnover
import Arcbase.Proofs.Action.Unopposed
import Arcbase.Proofs.Session.Connecting
set_option autoImplicit false

/-!
# Scheduling a relationship

Scheduling a relationship holds both of its ends while it looks for an arc, and connects
them once more if it finds one (`MarkingRun`).  So it leaves all slots alone that this connect
does not write (`MarkingRun.sameSlot`), and it registers nothing once it has taken a vertex out
(`MarkingRun.turnover`).
-/

namespace Arcbase

open Arcbase.Action Store

variable {α : Type} {agree : Agreement} {who : Caller} {r : ConnectRequest} {G : List Guard}
  {s s' : Store} {answer : Except Error α} {n : SlotName}

/-! ## What a connect leaves -/

theorem Action.Moving.grows {D : String → Prop} {H L : Grip} {P : Store → Prop} {a : Action α}
    {A : α → Prop} {K : α → Grip} {Q : α → Store → Prop} (h : Moving agree D H P a A K L Q)
    (hs : s.Sound agree) (hg : s.Guarded H.guards) (hp : P s) (hrun : a.run s = (answer, s')) :
    s.labels.Grows s'.labels := by
  have hmoves := h s answer s' hs hg hp hrun
  cases answer with
  | error e => exact Moves.grows hmoves
  | ok x => exact Moves.grows hmoves.1

/-- A slot of a kind that a request does not write stays as it is. -/
theorem Linking.sameSlot (h : Linking agree who r G s answer s') (hs : s.Sound agree)
    (hs' : s'.Sound agree) (hn : s.Named) (grows : s.labels.Grows s'.labels)
    (hw : ¬ r.Writes n.kind) : SameSlot n s s' := by
  cases h with
  | unfit => exact ⟨rfl, rfl⟩
  | failed run => exact run.sameSlots hs hs' hn grows n
  | done run =>
    obtain ⟨_, _, hanswered⟩ := run.answered hs hn
    obtain ⟨code, hslots⟩ := hanswered.relinked
    refine ⟨?_, hslots.inward n fun h => hw h.2⟩
    rw [hslots.slot, leaves_of_not_writes hw, ite_self]

theorem Linking.turnover (h : Linking agree who r G s answer s') (hs : s.Sound agree)
    (hp' : s'.Placed) : s.Turnover s' := by
  cases h with
  | unfit => exact (SameFrame.refl s).waxes.turnover hs.placed
  | failed run => exact run.turnover hs hp'
  | done run => exact run.turnover hs hp'

/-! ## The ways in which it may go -/

/-- The ways in which scheduling a relationship may go, `r` being the connect within it. -/
inductive MarkingRun (who : Caller) (r : ConnectRequest) (G : List Guard) (s : Store) :
    Except Error Unit → Store → Prop where
  | refused (e : Error) (locks : LockTable) : MarkingRun who r G s (.error e) { s with locks }
  | unrelated (e : Error) {new : List Guard} {locks : LockTable}
      (writers : ∀ g ∈ new, g.hold = .writer) (guarded : Guarded { s with locks } (new ++ G)) :
      MarkingRun who r G s (.error e) (({ s with locks } : Store).dropAll new)
  | connected {new : List Guard} {locks : LockTable} {outcome : Except Error Nat} {s₁ : Store}
      (writers : ∀ g ∈ new, g.hold = .writer) (guarded : Guarded { s with locks } (new ++ G))
      (run : (connect who r).run { s with locks } = (outcome, s₁)) :
      MarkingRun who r G s (outcome.map fun _ => ()) (s₁.dropAll new)

theorem MarkingRun.unchanged (e : Error) : MarkingRun who r G s (.error e) s :=
  .refused e s.locks

/-- What comes once both ends are found. -/
theorem run_reconnecting {missing : Error} {filter : ArcFilter} {i t : CellId}
    {answer : Except Error Unit} (hs : s.Sound agree) (hg : s.Guarded G) (hi : s.Live i)
    (ht : s.Live t)
    (hrun : (holdingMany who (if i = t then [i] else [i, t]) .writable
      (reconnect who r missing filter i t)).run s = (answer, s')) :
    MarkingRun who r G s answer s' := by
  have hlive : AllLive (if i = t then [i] else [i, t]) s := by
    split
    · exact allLive_cons.2 ⟨hi, allLive_nil⟩
    · exact allLive_cons.2 ⟨hi, allLive_cons.2 ⟨ht, allLive_nil⟩⟩
  rcases run_holdingMany hs hg hlive hrun with
    ⟨e, locks, rfl, _, rfl⟩ | ⟨new, locks, s₁, hgiven, hguarded, _, hbody, rfl⟩
  · exact .refused e locks
  · rw [reconnect, run_bind] at hbody
    simp only [Action.read, run_ofFun] at hbody
    split at hbody
    · rw [run_bind] at hbody
      cases hconnect : (connect who r).run { s with locks } with
      | mk outcome s₂ =>
        rw [hconnect] at hbody
        have hconnected := MarkingRun.connected hgiven.writer hguarded hconnect
        cases outcome <;> cases hbody <;> exact hconnected
    · cases hbody
      exact .unrelated missing hgiven.writer hguarded

theorem run_markArcExpiring {initial relationship terminal : String} {time : UInt32}
    {answer : Except Error Unit} (hs : s.Sound agree) (hg : s.Guarded G)
    (hrun : (markArcExpiring who initial relationship terminal time).run s = (answer, s')) :
    MarkingRun who (marking initial relationship terminal time) G s answer s' := by
  rw [markArcExpiring, run_bind, run_checkWritable] at hrun
  cases hup : s.locks.readonly with
  | true =>
    rw [hup, if_pos rfl] at hrun
    cases hrun
    exact .unchanged _
  | false =>
    rw [hup, if_neg Bool.false_ne_true] at hrun
    simp only [run_bind, Action.read, run_ofFun, Action.ofExcept] at hrun
    cases hfilter : s.filterOf (.along relationship .out) with
    | error e =>
      rw [hfilter] at hrun
      cases hrun
      exact .unchanged e
    | ok filter =>
      rw [hfilter] at hrun
      dsimp only at hrun
      cases hi : s.lookup initial with
      | none =>
        rw [hi] at hrun
        cases hrun
        exact .unchanged _
      | some i =>
        cases ht : s.lookup terminal with
        | none =>
          rw [hi, ht] at hrun
          cases hrun
          exact .unchanged _
        | some t =>
          rw [hi, ht] at hrun
          exact run_reconnecting hs hg (hs.placed.of_lookup hi).1 (hs.placed.of_lookup ht).1 hrun

/-! ## What scheduling leaves -/

theorem ordered_connect {outcome : Except Error Nat} (hs : s.Sound agree) (hg : s.Guarded G)
    (hrun : (connect who r).run s = (outcome, s')) : s'.Sound agree ∧ s'.Guarded G := by
  obtain ⟨st, hguarded⟩ :=
    orderly_connect (W := fun _ => True) (fun _ _ => trivial) r s outcome s' hs hg trivial hrun
  refine ⟨Steps.sound st hs, ?_⟩
  cases outcome with
  | error e => exact hguarded
  | ok k => exact hguarded.1

section Run

variable {answer : Except Error Unit} (h : MarkingRun who r G s answer s') (hs : s.Sound agree)
include h hs

theorem MarkingRun.sameSlot (hl : s.labels.Valid) (hn : s.Named) (hw : ¬ r.Writes n.kind) :
    SameSlot n s s' := by
  have hlocks : ∀ locks, Sound agree { s with locks } ∧ SameSlot n s { s with locks } := by
    intro locks
    have hs₀ : Sound agree { s with locks } := hs.withLocks locks
    have harcs : SameArcs s { s with locks } := sameArcs_of_cells rfl rfl
    exact ⟨hs₀, harcs.sameSlots hs hs₀ n⟩
  cases h with
  | refused e locks => exact (hlocks locks).2
  | @unrelated _ new locks writers guarded =>
    obtain ⟨hs₀, hsame⟩ := hlocks locks
    exact hsame.trans
      ((sameArcs_dropAll hs₀ guarded writers).sameSlots hs₀ (sound_dropAll hs₀ new) n)
  | @connected new locks outcome s₁ writers guarded run =>
    obtain ⟨hs₀, hsame⟩ := hlocks locks
    have hn₀ : Named { s with locks } := ⟨hn.valid, hn.arcs⟩
    have hlinking := linking_connect hs₀ guarded hl run
    obtain ⟨hs₁, hguarded⟩ := ordered_connect hs₀ guarded run
    have hsteady : Steady agree (fun _ => False) (new ++ G) (fun s => s.labels.relationships.Valid)
        (connect who r) (fun _ => True) fun _ _ => True := steady_connect r
    have hgrows := hsteady.grows hs₀ guarded hl.relationships run
    exact (hsame.trans (hlinking.sameSlot hs₀ hs₁ hn₀ hgrows hw)).trans
      ((sameArcs_dropAll hs₁ hguarded writers).sameSlots hs₁ (sound_dropAll hs₁ new) n)

theorem MarkingRun.turnover (hl : s.labels.Valid) : s.Turnover s' := by
  have losses := toleratesLosses_wanes agree who.now
  cases h with
  | refused e locks => exact (sameFrame_locks s locks).wanes.turnover hs.placed
  | @unrelated _ new locks _ _ =>
    have hs₀ : Sound agree { s with locks } := hs.withLocks locks
    exact ((sameFrame_locks s locks).wanes.trans
      (losses.droppingAll hs₀ trivial new).2.2).turnover hs.placed
  | @connected new locks outcome s₁ _ guarded run =>
    have hs₀ : Sound agree { s with locks } := hs.withLocks locks
    have hlinking := linking_connect hs₀ guarded hl run
    have hs₁ := (ordered_connect hs₀ guarded run).1
    exact ((sameFrame_locks s locks).waxes.turnover_trans
      (hlinking.turnover hs₀ hs₁.placed)).wanes (losses.droppingAll hs₁ trivial new).2.2

end Run

end Arcbase
