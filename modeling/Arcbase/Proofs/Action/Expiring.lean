import Arcbase.Proofs.Action.Connecting
import Arcbase.Proofs.Action.Removing
import Arcbase.Store.Expiration
set_option autoImplicit false

/-!
# Expiration is orderly

An expiration pass attempts one deletion or removal after the other.  Each of them is
orderly whether it succeeds or fails, and the schedule is no part of the graph.
-/

namespace Arcbase.Action

open Store

variable {agree : Agreement} {W : CellId → Prop} {G : List Guard} {who : Caller}

theorem orderly_markExpiring (hW : Covers W who.thread G) (id : String) (time : UInt32) :
    Orderly agree W G (fun _ => True) (markExpiring who id time) fun _ _ => True := by
  refine orderly_bind orderly_checkWritable fun _ => ?_
  refine .bind (turns_acquireExisting hW id) fun g => ?_
  refine .intro (fun _ h => h) fun hgiven => ?_
  have hown : W g.item.slot := hgiven.owned (hgiven.writing rfl)
  refine turns_ensuring [g] (Q := fun _ _ => True)
    (fun g' hm _ => List.mem_singleton.1 hm ▸ hown) ?_
  exact (orderly_setExpiration (fun _ => hown) time).weaken (fun _ _ => trivial) fun _ _ h => h

theorem orderly_markArcExpiring (hW : Covers W who.thread G)
    (initial relationship terminal : String) (time : UInt32) :
    Orderly agree W G (fun _ => True) (markArcExpiring who initial relationship terminal time)
      fun _ _ => True := by
  unfold markArcExpiring
  refine orderly_bind orderly_checkWritable fun _ => orderly_bind orderly_read_any fun filter => ?_
  refine orderly_bind (orderly_ofExcept (Q := fun _ => AllLive []) fun _ _ _ _ => allLive_nil)
    fun filter => ?_
  refine orderly_bind (orderly_lookup []) fun i => orderly_bind (orderly_lookup _) fun t => ?_
  split
  next i t =>
    refine orderly_holdingMany hW (fun s hl c hc => (hl c ?_).1) (frameStable_allLive _)
      (Q := fun _ _ => True) fun new hgiven hW' => ?_
    · split at hc
      · exact List.mem_cons_of_mem t (List.mem_singleton.1 hc ▸ List.mem_cons_self)
      · rcases List.mem_cons.1 hc with rfl | hc
        · exact List.mem_cons_of_mem t List.mem_cons_self
        · exact List.mem_singleton.1 hc ▸ List.mem_cons_self
    · refine orderly_bind (M := fun _ _ => True) (orderly_read fun _ _ _ => trivial)
        fun present => ?_
      split
      · exact orderly_bind (orderly_connect hW' _) fun _ => orderly_pure fun _ h => h
      · exact turns_fail
  next => exact turns_fail

/-! ## Passes -/

theorem orderly_expire (hW : Covers W who.thread G) (item : Expiring) :
    Orderly agree W G (fun _ => True) (expire who item) fun _ _ => True := by
  cases item with
  | vertex id => exact orderly_bind (orderly_delete hW id) fun _ => orderly_pure fun _ h => h
  | arc initial relationship terminal =>
    exact orderly_bind (orderly_disconnect hW initial _ _) fun _ => orderly_pure fun _ h => h

/-- What is made of an item's outcome once the items after it have been tried. -/
theorem orderly_report {rest : List (UInt32 × Expiring)} (hrest : Orderly agree W G (fun _ => True)
      (expireAll who rest) fun _ _ => True) (time : UInt32) (item : Expiring)
    (outcome : Except Error (Nat × Nat)) :
    Orderly agree W G (fun _ => True)
      (do
        let (report, again) ← expireAll who rest
        match outcome with
        | .ok (vertices, arcs) =>
          return ({ report with
            vertices := report.vertices + vertices, arcs := report.arcs + arcs }, again)
        | .error e =>
          if e.isRetrySafe || e.partialCount.isSome then
            return ({ report with arcs := report.arcs + e.partialCount.getD 0 },
              (time, item) :: again)
          else return (report, again)) fun _ _ => True := by
  refine orderly_bind hrest fun answer => ?_
  dsimp only
  split
  · exact orderly_pure fun _ h => h
  · split
    · exact orderly_pure fun _ h => h
    · exact orderly_pure fun _ h => h

theorem orderly_expireAll (hW : Covers W who.thread G) (due : List (UInt32 × Expiring)) :
    Orderly agree W G (fun _ => True) (expireAll who due) fun _ _ => True := by
  induction due with
  | nil => exact orderly_pure fun _ h => h
  | cons item rest ih =>
    obtain ⟨time, item⟩ := item
    unfold expireAll
    refine .bind (turns_attempt (fun _ => True) (fun _ _ _ _ => trivial)
      (orderly_expire hW item)) fun outcome => ?_
    cases outcome with
    | ok x => exact orderly_report ih time item (.ok x)
    | error e => exact orderly_report ih time item (.error e)

theorem orderly_runExpiration (hW : Covers W who.thread G) (time : UInt32) :
    Orderly agree W G (fun _ => True) (runExpiration who time) fun _ _ => True := by
  unfold runExpiration
  refine orderly_bind orderly_checkWritable fun _ => ?_
  refine orderly_bind (M := fun _ _ => True) (orderly_ofFun fun s _ _ =>
    ⟨.single (.schedule s _), rfl, fun _ _ => trivial⟩) fun due => ?_
  refine orderly_bind (orderly_expireAll hW due) fun (report, again) => ?_
  refine orderly_bind (M := fun _ _ => True) (turns_update fun s _ _ =>
    ⟨.single (.schedule s _), rfl, trivial⟩) fun _ => ?_
  exact orderly_bind orderly_read_any fun _ => orderly_pure fun _ h => h

end Arcbase.Action
