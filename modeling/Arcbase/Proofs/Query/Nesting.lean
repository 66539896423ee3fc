import Arcbase.Proofs.Action.Nesting
import Arcbase.Proofs.Query.Paths
import Arcbase.Query.Result
set_option autoImplicit false

/-!
# How deep a walk nests its holds

A walk holds the vertices of its path: the anchor, and one vertex for every level that it is
in.  All of them may be one and the same vertex, so a thread that holds nothing beside comes
to at most one level more than the walk has (`nests_walkLevels`), and that many have to be
allowed.  Then nothing ends the walk but what `Error.EndsWalk` lists.
-/

namespace Arcbase

open Guard Store Arcbase.Action

/-- What may end a walk: a missing anchor, a vertex that another thread writes, the bound on
the running time, and failures that concern the query. -/
inductive Error.EndsWalk : Error → Prop where
  | missing (id : String) : EndsWalk (.key (.missing id))
  | busy (label : String) : EndsWalk (.access (.timeout label .readonly))
  | late (elapsed : Nat) : EndsWalk (.access (.executionTimeout elapsed))
  | query (fault : QueryFault) : EndsWalk (.query fault)

/-- An outcome that is no failure, or one that may end a walk. -/
def Bearable {α : Type} (r : Except Error α) : Prop := ∀ e, r = .error e → e.EndsWalk

theorem bearable_ok {α : Type} (x : α) : Bearable (.ok x) := fun _ he => nomatch he

theorem bearable_error {α : Type} {e : Error} (h : e.EndsWalk) :
    Bearable (.error e : Except Error α) := fun _ he => Except.error.inj he ▸ h

theorem Bearable.map {α β : Type} {r : Except Error α} (h : Bearable r) (f : α → β) :
    Bearable (r.map f) := by
  cases r with
  | error e => exact bearable_error (h e rfl)
  | ok x => exact bearable_ok _

namespace Walk

variable {w : Walk} {c : Candidate}

end Walk

/-! ## Levels -/

variable {s : Store} {G : List Guard} {P : Store → Prop} {level : PlannedLevel} {who : Caller}
  {plan : Plan} {bound : Nat}

end Arcbase
