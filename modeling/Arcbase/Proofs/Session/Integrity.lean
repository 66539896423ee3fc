import Arcbase.Proofs.Session.Reach
import Arcbase.Proofs.Store.TwoSided
import Mathlib
set_option autoImplicit false

/-!
# Reachable graphs have two-sided arcs

Between two operations every arc of a graph that was never restored is on both of its
sides, whatever the operations were and however they ended.
-/

namespace Arcbase

/-- The two sides of every arc agree in every session that was only ever operated on. -/
theorem twoSided_of_reach {s : Session} (h : Reach Operation.Live s) : s.store.TwoSided :=
  h.sound_live.store.twoSided

/-- A forward-only loop and then an arc between two vertices. -/
def loopThenArc : List ConnectRequest :=
  [{ initial := "a", arc := { relationship := "r", forwardOnly := true }, terminals := .one "a" },
    { initial := "b", arc := { relationship := "r" }, terminals := .one "c" }]

theorem twoSided_loopThenArc :
    let s := loopThenArc.foldl (fun s r => (Operation.ask (.connect r)).after ⟨⟨"m"⟩, 5⟩ s)
      (.new {} .new)
    s.store.size = 2 ∧ s.store.TwoSided := by
  refine ⟨?_, ?_⟩
  · set_option maxRecDepth 10000 in
    cbv
  · have hlive : ∀ r, (Operation.ask (.connect r)).Live := fun _ => by rfl
    have hempty : Reach Operation.Live (.new {} .new) := .start {} .new
    have hloop := hempty.step ⟨⟨"m"⟩, 5⟩ _ (hlive loopThenArc[0])
    exact twoSided_of_reach (hloop.step ⟨⟨"m"⟩, 5⟩ _ (hlive loopThenArc[1]))

end Arcbase
