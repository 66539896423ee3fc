import Arcbase.Proofs.Action.Slots
import Arcbase.Proofs.Session.Arising
set_option autoImplicit false

/-!
# Requests that connect

A connect, a count, an accumulation and an addition all come to a connect with an update of
their own, unless what they are given is no value of the kind (`Linking`).  A number that is
added to an arc always comes back: there is one terminal, and no condition.
-/

namespace Arcbase

open Arcbase.Action Store

/-- The connect that a request comes to. -/
def Request.connects? {α : Type} : Request α → Option ConnectRequest
  | .connect r => some r
  | .count initial relationship terminal _ =>
    some { initial, arc := { relationship, kind := .counter }, terminals := .one terminal }
  | .accumulate initial relationship terminal _ =>
    some { initial, arc := { relationship, kind := .accumulator }, terminals := .one terminal }
  | .addTo initial relationship terminal kind _ =>
    some { initial, arc := { relationship, kind }, terminals := .one terminal }
  | _ => none

variable {α : Type} {agree : Agreement} {who : Caller} {r : ConnectRequest} {G : List Guard}
  {s s' : Store} {answer : Except Error α}

/-- The ways in which a request may go that connects. -/
inductive Linking (agree : Agreement) (who : Caller) (r : ConnectRequest) (G : List Guard)
    (s : Store) : Except Error α → Store → Prop where
  | unfit (fault : ValueFault) :
      Linking agree who r G s (.error (.arc (.invalidValue r.arc.kind fault))) s
  | failed {u : ArcUpdate} {e : Error} {s' : Store}
      (run : ConnectRun agree who r u G s (.error e) s') : Linking agree who r G s (.error e) s'
  | done {u : ArcUpdate} {written : Nat × Option ArcValue} {x : α} {s' : Store}
      (run : ConnectRun agree who r u G s (.ok written) s') : Linking agree who r G s (.ok x) s'

/-- What is made of the answer does not matter. -/
theorem Linking.map {β : Type} (h : Linking agree who r G s answer s') (f : α → β) :
    Linking agree who r G s (answer.map f) s' := by
  cases h with
  | unfit fault => exact .unfit fault
  | failed run => exact .failed run
  | done run => exact .done run

/-- What a connect comes to that has the form of its value right. -/
theorem run_connect {answer : Except Error Nat} (hrun : (connect who r).run s = (answer, s')) :
    (∃ e, ArcUpdate.ofRequest r.arc = .error e ∧ answer = .error e ∧ s' = s) ∨
      ∃ u outcome, ArcUpdate.ofRequest r.arc = .ok u ∧
        (connectWith who r u).run s = (outcome, s') ∧ answer = outcome.map Prod.fst := by
  simp only [connect, run_bind, Action.ofExcept, run_ofFun] at hrun
  cases hu : ArcUpdate.ofRequest r.arc with
  | error e =>
    rw [hu] at hrun
    cases hrun
    exact .inl ⟨e, rfl, rfl, rfl⟩
  | ok u =>
    rw [hu] at hrun
    dsimp only at hrun
    cases hwith : (connectWith who r u).run s with
    | mk outcome s₁ =>
      rw [hwith] at hrun
      cases outcome with
      | error e =>
        cases hrun
        exact .inr ⟨u, .error e, rfl, hwith, rfl⟩
      | ok written =>
        cases hrun
        exact .inr ⟨u, .ok written, rfl, hwith, rfl⟩

section Running

variable (hs : s.Sound agree) (hg : s.Guarded G) (hl : s.labels.Valid)
include hs hg hl

theorem linking_connect {answer : Except Error Nat} (hrun : (connect who r).run s = (answer, s')) :
    Linking agree who r G s answer s' := by
  rcases run_connect hrun with ⟨e, hu, rfl, rfl⟩ | ⟨u, outcome, _, hwith, rfl⟩
  · obtain ⟨fault, rfl⟩ := ofRequest_error hu
    exact .unfit fault
  · have hwent := run_connectWith hs hg hl hwith
    cases outcome with
    | error e => exact .failed hwent
    | ok written => exact .done hwent

theorem linking_addTo {initial relationship terminal : String} {kind : ArcKind} {delta : Binary64}
    {answer : Except Error ArcValue} (hn : s.Named)
    (hrun : (addTo who initial relationship terminal kind delta).run s = (answer, s')) :
    Linking agree who { initial, arc := { relationship, kind }, terminals := .one terminal } G s
      answer s' := by
  unfold addTo at hrun
  dsimp only at hrun
  split at hrun
  · cases hrun
    exact .unfit _
  · rw [run_bind] at hrun
    cases hwith : (connectWith who
        { initial, arc := { relationship, kind }, terminals := .one terminal }
          (.add delta)).run s with
    | mk outcome s₁ =>
      rw [hwith] at hrun
      have hwent := run_connectWith hs hg hl hwith
      cases outcome with
      | error e =>
        cases hrun
        exact .failed hwent
      | ok written =>
        obtain ⟨gate, hgate, hanswered⟩ := hwent.answered hs hn
        obtain rfl : none = gate := Except.ok.inj hgate
        have hvalue := hanswered.value (by simp [ConnectRequest.admitted, Terminals.ids])
        obtain ⟨value, hvalue⟩ := Option.isSome_iff_exists.1 hvalue
        dsimp only at hrun
        rw [hvalue] at hrun
        cases hrun
        exact .done hwent

end Running

theorem run_bind_pure {β : Type} (a : Action α) (f : α → β) (s : Store) :
    (a >>= fun x => pure (f x)).run s = ((a.run s).1.map f, (a.run s).2) := by
  rw [run_bind]
  cases a.run s with
  | mk answer s₁ => cases answer <;> rfl

theorem linking_action {request : Request α} (hr : request.connects? = some r)
    (hs : s.Sound agree) (hg : s.Guarded G) (hl : s.labels.Valid) (hn : s.Named)
    (hrun : (request.action who).run s = (answer, s')) : Linking agree who r G s answer s' := by
  cases request with
  | connect r' =>
    obtain rfl := Option.some.inj hr
    exact linking_connect hs hg hl hrun
  | count initial relationship terminal delta =>
    obtain rfl := Option.some.inj hr
    rw [Request.action, count, run_bind_pure] at hrun
    obtain ⟨rfl, rfl⟩ := Prod.mk.inj hrun
    exact (linking_addTo hs hg hl hn rfl).map _
  | accumulate initial relationship terminal delta =>
    obtain rfl := Option.some.inj hr
    rw [Request.action, accumulate, run_bind_pure] at hrun
    obtain ⟨rfl, rfl⟩ := Prod.mk.inj hrun
    exact (linking_addTo hs hg hl hn rfl).map _
  | addTo initial relationship terminal kind delta =>
    obtain rfl := Option.some.inj hr
    exact linking_addTo hs hg hl hn hrun
  | _ => cases hr

/-- How a request that connects goes in a graph that can arise. -/
theorem Arises.linking {ok : Operation → Prop} {s : Session} (h : Arises ok s) (who : Caller)
    {request : Request α} (hr : request.connects? = some r) :
    Linking .slots who r s.guards s.store (s.ask who request).1 (s.ask who request).2.store :=
  linking_action hr h.reach.sound.store h.reach.sound.guarded h.labels h.lawful.named rfl

end Arcbase
