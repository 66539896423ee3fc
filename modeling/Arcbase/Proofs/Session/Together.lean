import Arcbase.Proofs.Lock.Together
import Arcbase.Proofs.Session.Reach
import Mathlib
set_option autoImplicit false

/-!
# Vertices that are opened together

The locks of a graph with the handles on it are a lock session as well
(`Session.locks`), so that a request for several vertices gives all of them or none.
Once it has been granted, the handles come in the order in which the vertices were asked
for, whatever the order in which they were taken (`Session.Opened`).
-/

namespace Arcbase

open Arcbase.Action

namespace Session

/-- The locks of a graph, with its handles as the guards that are held. -/
def locks (s : Session) : LockSession := { table := s.store.locks, guards := s.handles }

/-- What a caller has that has opened several vertices: a handle for each identifier, in
their order, in the mode of the request or in writable access that the thread had before,
and with the lock of the vertex held. -/
structure Opened (s : Session) (who : Caller) (ids : List String) (mode : OpenMode)
    (views : List HandleView) : Prop where
  order : views.map (fun v => v.info.id) = ids
  access : ∀ v ∈ views, v.mode = lockModeOf mode ∨ v.mode = .writable
  held : ∃ guards store, (Action.openVertices who ids mode).run s.store = (.ok guards, store) ∧
    views = guards.map ({ s with store } : Session).view ∧ ∀ g ∈ guards,
      g.thread = who.thread ∧ (store.locks.record g.item.slot).heldBy who.thread = some g.mode

variable {agree : Agreement} {s : Session} {who : Caller} {ids : List String} {mode : OpenMode}

theorem Sound.locks (h : s.Sound agree) : s.locks.Sound s.store.locks.limit [] :=
  ⟨rfl, h.guarded.accounts⟩

theorem Sound.opened (h : s.Sound agree) {names : List String} {views : List HandleView}
    (hok : (s.openVertices who names ids mode).1 = .ok views) : s.Opened who ids mode views := by
  unfold openVertices perform at hok
  cases hrun : (Action.openVertices who ids mode).run s.store with
  | mk r store =>
    rw [hrun] at hok
    cases r with
    | error e => cases hok
    | ok guards =>
      cases hok
      obtain ⟨_, hguarded, hhanded⟩ := turns_openVertices (covers_open who.thread s.guards) ids mode
        s.store _ store h.store h.guarded trivial hrun
      refine ⟨?_, fun v hv => ?_, guards, store, hrun, rfl, fun g hg => ?_⟩
      · rw [List.map_map]
        exact hhanded.ids
      · obtain ⟨g, hg, rfl⟩ := List.mem_map.1 hv
        change g.mode = lockModeOf mode ∨ g.mode = .writable
        have hwriting := hhanded.writing
        unfold Guard.mode
        cases mode with
        | readonly =>
          cases g.hold
          · exact .inl rfl
          · exact .inr rfl
        | append => exact .inr (congrArg Hold.mode (hwriting rfl g hg))
        | write => exact .inr (congrArg Hold.mode (hwriting rfl g hg))
      · have hrec := hguarded.accounts.record g.item.slot
        have hthread := hhanded.thread g hg
        rw [← hthread]
        exact ⟨rfl, hrec.heldBy (Guard.mem_onSlot.2 ⟨List.mem_append_left _ hg, rfl⟩)⟩

end Session

/-- Several locks are taken together or not at all, after every run of a lock session and
in every graph; and vertices that are opened together are handed out in the order of the
request. -/
theorem held_together {ok : Operation → Prop} {s : Session} (h : Reach ok s) (who : Caller)
    (names ids : List String) (mode : OpenMode) (limit defaultWait : Nat)
    (requests : List LockRequest) (me : Thread) (items : List LockItem) (lockMode : LockMode) :
    ((LockSession.new limit defaultWait).run requests).Together me items lockMode ∧
      s.locks.Together me items lockMode ∧
      ∀ views, (s.openVertices who names ids mode).1 = .ok views → s.Opened who ids mode views :=
  ⟨LockSession.together_run limit defaultWait requests me items lockMode,
    h.sound.locks.together me items lockMode, fun _ => h.sound.opened⟩

/-- One thread writes an item, and another one reads a second item. -/
def writerBesideReader : List LockRequest :=
  [.acquire ⟨⟨"t"⟩, "g"⟩ ⟨0, 1, "a"⟩ .writable, .acquire ⟨⟨"u"⟩, "h"⟩ ⟨1, 2, "b"⟩ .readonly]

/-- The second item and then the first one. -/
def bothItems : List LockItem := [⟨1, 2, "b"⟩, ⟨0, 1, "a"⟩]

/-- The writer enters its own item again and is refused the second one: it is left with the
one level that it had.  Vertices are handed out as they were asked for. -/
theorem held_together_writerBesideReader :
    (((LockSession.new 2 0).run writerBesideReader).table.acquireMany ⟨"t"⟩ bothItems
        .writable).1 = .error (.access (.timeout "b" .writable)) ∧
      ((LockSession.new 2 0).run writerBesideReader).table.Matches
        (((LockSession.new 2 0).run writerBesideReader).table.acquireMany ⟨"t"⟩ bothItems
          .writable).2 ∧
      ∃ views, ((Session.new {} .new).openVertices ⟨⟨"t"⟩, 5⟩ ["x", "y"] ["b", "a"] .write).1 =
        .ok views ∧ views.map (fun v => v.info.id) = ["b", "a"] := by
  have hall := held_together (.start {} .new : Reach Operation.Live (.new {} .new))
    ⟨⟨"t"⟩, 5⟩ ["x", "y"] ["b", "a"] .write 2 0 writerBesideReader ⟨"t"⟩ bothItems .writable
  have hrefused : (((LockSession.new 2 0).run writerBesideReader).table.acquireMany ⟨"t"⟩
      bothItems .writable).1 = .error (.access (.timeout "b" .writable)) := by
    set_option maxRecDepth 10000 in
    cbv
  refine ⟨hrefused, hall.1.refused _ _ (Prod.ext hrefused rfl), ?_⟩
  have hsome : ((Session.new {} .new).openVertices ⟨⟨"t"⟩, 5⟩ ["x", "y"]
      ["b", "a"] .write).1.toOption.isSome = true := by
    set_option maxRecDepth 10000 in
    cbv
  cases hopen : ((Session.new {} .new).openVertices ⟨⟨"t"⟩, 5⟩ ["x", "y"] ["b", "a"] .write).1 with
  | error e =>
    rw [hopen] at hsome
    cases hsome
  | ok views => exact ⟨views, rfl, (hall.2.2 views hopen).order⟩

end Arcbase
