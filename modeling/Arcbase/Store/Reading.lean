import Arcbase.Store.Opening
set_option autoImplicit false

/-!
# Looking arcs up

Values, adjacency and degrees of a vertex, read while it is held readonly.
-/

namespace Arcbase.Action

/-- The value of the first arc between two vertices that matches a probe. -/
def arcValue (who : Caller) (initial : String) (probe : Probe) (terminal : String) :
    Action (Option ArcValue) := do
  let filter ← ofExcept (← read (·.filterOf probe))
  let c ← find initial
  holding who c .readonly do
    match ← read (·.lookup terminal) with
    | none => return none
    | some t =>
      let s ← read id
      return ((s.data c).arcsBetween (s.cell t).key filter probe.direction).head?.map (·.value)

/-- Whether a vertex has an arc that matches a probe, to any neighbor or to one. -/
def adjacent (who : Caller) (anchor : String) (probe : Probe) (neighbor : Option String) :
    Action Bool := do
  let filter ← ofExcept (← read (·.filterOf probe))
  let c ← find anchor
  holding who c .readonly do
    let s ← read id
    match neighbor with
    | none => return (s.data c).hasMatchingArc filter probe.direction none
    | some id =>
      match s.lookup id with
      | none => return false
      | some n =>
        return (s.data c).hasMatchingArc filter probe.direction (some [(s.cell n).key])

/-- The degree of a vertex: without a probe all arcs, forward-only inbound ones
included; with a probe the indexed arcs that match it. -/
def degree (who : Caller) (anchor : String) (probe : Option Probe) : Action Nat := do
  let c ← find anchor
  holding who c .readonly do
    let s ← read id
    match probe with
    | none => return (s.data c).degree
    | some probe =>
      let filter ← ofExcept (s.filterOf probe)
      return ((s.data c).matchingArcs filter probe.direction).length

end Arcbase.Action
