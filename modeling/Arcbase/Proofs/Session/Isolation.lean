import Arcbase.Proofs.Session.Reach
set_option autoImplicit false

/-!
# Vertices that are held

Whatever one thread holds, in either mode, no other thread changes; and what a thread
holds readonly it does not change itself.  That is so for every operation, a restore
included: it finds the held vertex in the graph and is refused.
-/

namespace Arcbase

open Arcbase.Action Store

variable {agree : Agreement} {s : Session} {who : Caller}

/-- A thread that does not hold a vertex writable has it not to itself. -/
theorem not_open_of_handle {name : GuardName} {g : Guard} (hs : s.Sound agree)
    (hg : s.handle? name = some g)
    (hwho : who.thread ≠ name.thread ∨ g.mode = .readonly) :
    ¬ Guard.Open s.guards who.thread g.item.slot := by
  intro hopen
  obtain ⟨hwriter, hthread⟩ := hopen g (Session.mem_guards_of_handle? hg) rfl
  rcases hwho with hother | hreader
  · exact hother (hthread.symm.trans (hs.owner name g hg))
  · rw [Guard.mode, hwriter] at hreader
    cases hreader

/-- A restore changes no vertex that is in the graph. -/
theorem unchanged_restore {store store' : Store} (hp : store.Placed) {v : CellId}
    (hv : store.Live v) {snapshot : Snapshot} {r : Except Error Unit}
    (hrun : (restore snapshot).run store = (r, store')) : store.Unchanged store' v := by
  rcases run_restore hrun with ⟨_, _, hlabels⟩ | ⟨_, hempty, _⟩
  · rw [hlabels]
    exact ⟨rfl, hp.lookup_key hv⟩
  · have hfound := hp.lookup_key hv
    rw [lookupKey, hempty] at hfound
    cases hfound

/-- Lock isolation: a held vertex stays in the graph with all its data. -/
theorem unchanged_of_held {ok : Operation → Prop} (h : Reach ok s) {name : GuardName} {g : Guard}
    (hg : s.handle? name = some g) (hv : (s.store.data g.item.slot).deleted = false)
    (who : Caller) (op : Operation)
    (hwho : who.thread ≠ name.thread ∨ g.mode = .readonly) :
    s.store.Unchanged (op.after who s).store g.item.slot := by
  have hs := h.sound
  have hlive : s.store.Live g.item.slot :=
    ⟨(hs.guarded.item g (Session.mem_guards_of_handle? hg)).1, hv⟩
  by_cases hop : op.Live
  · obtain ⟨st, _⟩ := op.steps_after hs (covers_open who.thread s.guards) hop
    exact Steps.untouched st hs.store.placed (not_open_of_handle hs hg hwho) hlive
  · cases op with
    | ask r =>
      cases r with
      | restore snapshot => exact unchanged_restore hs.store.placed hlive rfl
      | _ => exact absurd rfl hop
    | _ => exact absurd trivial hop

/-- A vertex that one thread has open is not deleted by another one. -/
theorem unchanged_of_held_delete :
    let s := (Operation.openVertex "h" "a" .write).after ⟨⟨"t"⟩, 5⟩ (.new {} .new)
    let g : Guard := ⟨⟨"t"⟩, ⟨0, (VertexKey.of "a").value, "a"⟩, .writer⟩
    s.handle? ⟨⟨"t"⟩, "h"⟩ = some g ∧
      s.store.Unchanged ((Operation.ask (.delete "a")).after ⟨⟨"u"⟩, 6⟩ s).store g.item.slot := by
  have hempty : Reach Operation.Live (.new {} .new) := .start {} .new
  have hopened := hempty.step ⟨⟨"t"⟩, 5⟩ (.openVertex "h" "a" .write) trivial
  have hheld : ((Operation.openVertex "h" "a" .write).after ⟨⟨"t"⟩, 5⟩ (.new {} .new)).handle?
      ⟨⟨"t"⟩, "h"⟩ = some ⟨⟨"t"⟩, ⟨0, (VertexKey.of "a").value, "a"⟩, .writer⟩ := by rfl
  exact ⟨hheld, unchanged_of_held hopened hheld (by rfl) ⟨⟨"u"⟩, 6⟩ _ (.inl (by decide))⟩

end Arcbase
