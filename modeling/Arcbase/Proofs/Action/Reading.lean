import Arcbase.Proofs.Action.Quiet
import Arcbase.Query.Result
import Arcbase.Store.Reading
import Arcbase.Store.Snapshot
set_option autoImplicit false

/-!
# Look-ups, snapshots and queries are quiet

A walk holds every vertex that it visits, and the anchors above it, so that its
actions are quiet under whatever guards there are already (`quiet_walkLevels`).
-/

namespace Arcbase

namespace Action

open Store

variable {agree : Agreement} {G : List Guard} {who : Caller}

/-! ## Look-ups -/

theorem quiet_vertexInfo (id : String) :
    Quiet agree G (fun _ => True) (vertexInfo who id) fun _ _ => True :=
  quiet_bind quiet_found fun _ => quiet_holding_found fun _ => quiet_read_any

theorem quiet_arcValue (initial : String) (probe : Probe) (terminal : String) :
    Quiet agree G (fun _ => True) (arcValue who initial probe terminal) fun _ _ => True := by
  refine quiet_bind quiet_read_any fun _ => quiet_bind quiet_ofExcept fun filter => ?_
  refine quiet_bind quiet_found fun c => quiet_holding_found (Q := fun _ _ => True) fun g => ?_
  refine quiet_bind quiet_read_any fun found => ?_
  cases found with
  | none => exact quiet_pure fun _ _ => trivial
  | some t => exact quiet_bind quiet_read_any fun s => quiet_pure fun _ _ => trivial

theorem quiet_adjacent (anchor : String) (probe : Probe) (neighbor : Option String) :
    Quiet agree G (fun _ => True) (adjacent who anchor probe neighbor) fun _ _ => True := by
  refine quiet_bind quiet_read_any fun _ => quiet_bind quiet_ofExcept fun filter => ?_
  refine quiet_bind quiet_found fun c => quiet_holding_found (Q := fun _ _ => True) fun g => ?_
  refine quiet_bind quiet_read_any fun s => ?_
  cases neighbor with
  | none => exact quiet_pure fun _ _ => trivial
  | some id =>
    dsimp only
    split
    · exact quiet_pure fun _ _ => trivial
    · exact quiet_pure fun _ _ => trivial

theorem quiet_degree (anchor : String) (probe : Option Probe) :
    Quiet agree G (fun _ => True) (degree who anchor probe) fun _ _ => True := by
  refine quiet_bind quiet_found fun c => quiet_holding_found (Q := fun _ _ => True) fun g => ?_
  refine quiet_bind quiet_read_any fun s => ?_
  cases probe with
  | none => exact quiet_pure fun _ _ => trivial
  | some probe => exact quiet_bind quiet_ofExcept fun filter => quiet_pure fun _ _ => trivial

/-! ## Snapshots -/

theorem quiet_mapM {α β : Type} {P : Store → Prop} {xs : List α} {f : α → Action β}
    (h : ∀ x ∈ xs, Quiet agree G P (f x) fun _ => P) :
    Quiet agree G P (xs.mapM f) fun _ => P := by
  induction xs with
  | nil => exact quiet_pure fun _ hp => hp
  | cons x rest ih =>
    rw [List.mapM_cons]
    refine quiet_bind (h x List.mem_cons_self) fun y => ?_
    refine quiet_bind (ih fun z hz => h z (List.mem_cons_of_mem x hz)) fun ys => ?_
    exact quiet_pure fun _ hp => hp

theorem quiet_snapshot :
    Quiet agree G (fun _ => True) (snapshot who) fun _ _ => True := by
  refine quiet_bind (M := fun s₀ => AllLive s₀.registered) (quiet_read fun s hs _ c hc =>
    (mem_registered_iff hs.placed).1 hc) fun s₀ => ?_
  refine quiet_bind (M := fun _ _ => True) ?_ fun parts => quiet_pure fun _ h => h
  refine (quiet_mapM fun c hc => ?_).weaken (fun _ h => h) fun _ _ _ => trivial
  have hmem : c ∈ s₀.registered := List.mem_mergeSort.1 hc
  exact quiet_holding (fun s hl => (hl c hmem).1) (frameStable_allLive _)
    fun g => quiet_read_any

end Action

/-! ## Walks -/

open Arcbase.Action Store

variable {agree : Agreement} {who : Caller}

/-- What is walked beneath a candidate is quiet under all guards. -/
def QuietDescent (agree : Agreement) (beneath : Descent) : Prop :=
  ∀ G c w, Quiet agree G (fun _ => True) (beneath c w) fun _ _ => True

namespace PlannedLevel

variable {level : PlannedLevel} {G : List Guard} {beneath : Descent}

theorem quiet_consider (hb : QuietDescent agree beneath) (rank : Option Expression)
    (neighbor : CellId) (c : Candidate) (w : Walk) :
    Quiet agree G (fun _ => True) (level.consider rank beneath neighbor c w) fun _ _ => True := by
  unfold consider
  refine quiet_bind quiet_ofExcept fun (passed, w) => ?_
  dsimp only
  split
  · exact quiet_pure fun _ h => h
  · refine quiet_bind quiet_ofExcept fun w => quiet_bind (hb G neighbor w) fun (matched, w) => ?_
    dsimp only
    split
    · exact quiet_pure fun _ h => h
    · exact quiet_bind quiet_ofExcept fun (passed, w) => quiet_pure fun _ h => h

theorem quiet_visit (hb : QuietDescent agree beneath) (plan : Plan) (anchor : CellId)
    (depth : Nat) (arc : SeenArc) (w : Walk) :
    Quiet agree G (fun _ => True) (level.visit who plan beneath anchor depth arc w)
      fun _ _ => True := by
  obtain ⟨key, direction, stored⟩ := arc
  refine quiet_bind quiet_ofExcept fun _ => ?_
  refine quiet_bind (M := fun found => AllLive found.toList) (quiet_read fun s hs _ => ?_)
    fun found => ?_
  · cases hk : s.lookupKey key with
    | none => exact allLive_nil
    | some c => exact allLive_cons.2 ⟨hs.placed.live_of_lookup hk, allLive_nil⟩
  · cases found with
    | none => exact quiet_pure fun _ _ => trivial
    | some neighbor =>
      refine quiet_holding_found (Q := fun _ _ => True) fun g => ?_
      refine quiet_bind (M := fun _ _ => True) (quiet_read fun _ _ _ => trivial) fun s => ?_
      dsimp only
      split
      · exact quiet_consider hb plan.rank neighbor _ _
      · exact quiet_pure fun _ h => h

theorem quiet_visitAll {visit : SeenArc → Walk → Action (Bool × Walk)}
    (hv : ∀ arc w, Quiet agree G (fun _ => True) (visit arc w) fun _ _ => True)
    (arcs : List SeenArc) (matched : Bool) (w : Walk) :
    Quiet agree G (fun _ => True) (level.visitAll visit arcs matched w) fun _ _ => True := by
  induction arcs generalizing matched w with
  | nil => exact quiet_pure fun _ h => h
  | cons arc rest ih =>
    refine quiet_bind (hv arc w) fun (survived, w) => ?_
    dsimp only
    split
    · exact quiet_pure fun _ h => h
    · exact ih _ w

end PlannedLevel

theorem quiet_walkLevels (plan : Plan) (levels : List PlannedLevel) (depth : Nat) :
    QuietDescent agree (walkLevels who plan levels depth) := by
  induction levels generalizing depth with
  | nil => exact fun _ _ _ => quiet_pure fun _ h => h
  | cons level below ih =>
    intro G anchor w
    refine quiet_bind quiet_read_any fun arcs => ?_
    exact level.quiet_visitAll (fun arc w =>
      level.quiet_visit (ih (depth + 1)) plan anchor depth arc w) arcs false w

namespace Action

variable {G : List Guard}

theorem quiet_walk (p : Plan) : Quiet agree G (fun _ => True) (p.walk who) fun _ _ => True := by
  refine quiet_bind quiet_found fun anchor => quiet_holding_found (Q := fun _ _ => True) fun g => ?_
  refine quiet_bind ((quiet_walkLevels p _ 1 (g :: G) anchor {}).weaken (fun _ _ => trivial)
    fun _ _ h => h) fun w => quiet_pure fun _ h => h

theorem quiet_neighborhood (q : Query) :
    Quiet agree G (fun _ => True) (neighborhood who q) fun _ _ => True := by
  refine quiet_bind (quiet_bind quiet_read_any fun p => quiet_ofExcept) fun p => ?_
  exact quiet_bind (quiet_walk p) fun w => quiet_pure fun _ h => h

theorem quiet_aggregate (q : Query) :
    Quiet agree G (fun _ => True) (aggregate who q) fun _ _ => True := by
  refine quiet_bind (quiet_bind quiet_read_any fun p => quiet_ofExcept) fun p => ?_
  exact quiet_bind (quiet_walk p) fun w => quiet_pure fun _ h => h

/-- The answer of a query, read in another way. -/
theorem quiet_ofNeighborhood {α : Type} (q : Query) (f : QueryResult → α) :
    Quiet agree G (fun _ => True) (do return f (← neighborhood who q)) fun _ _ => True :=
  quiet_bind (quiet_neighborhood q) fun _ => quiet_pure fun _ h => h

end Action

end Arcbase
