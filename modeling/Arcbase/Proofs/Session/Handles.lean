import Arcbase.Proofs.Action.Expiring
import Arcbase.Proofs.Action.Reading
import Arcbase.Proofs.Snapshot.Restoring
import Arcbase.Session.Basic
set_option autoImplicit false

/-!
# Requests and sessions that are in order

Whatever is asked of a graph, except to restore it, is orderly, and so is whatever is asked
through a handle (`orderly_request`, `orderly_handleRequest`).

The guards of a session's handles are those that the locks of its store account for
(`Session.Sound`).  While an operation puts new guards under their names, closing what
was there before, the account is of the new guards and the handles together
(`Session.Held`).
-/

namespace Arcbase

open Arcbase.Action Store

/-! ## Requests -/

section Requests

variable {agree : Agreement} {W : CellId → Prop} {G : List Guard} {who : Caller}

/-- Whether a request is one to restore the graph. -/
def Request.isRestore {α : Type} : Request α → Bool
  | .restore _ => true
  | _ => false

namespace Action

theorem guarded_readonly {s : Store} (h : s.Guarded G) (readonly : Bool) :
    Guarded { s with locks := { s.locks with readonly } } G :=
  ⟨⟨h.accounts.limit_pos, h.accounts.record⟩, h.item⟩

theorem orderly_setReadonly : Orderly agree W G (fun _ => True) setReadonly fun _ _ => True := by
  intro s r s' _ hg _ hrun
  simp only [setReadonly, run_ofFun, LockTable.setReadonly] at hrun
  split at hrun
  · cases hrun
    exact ⟨.single (.locks s _), guarded_readonly hg false⟩
  · cases hrun
    exact ⟨.single (.locks s _), guarded_readonly hg true, trivial⟩

theorem orderly_clearReadonly :
    Orderly agree W G (fun _ => True) clearReadonly fun _ _ => True := by
  intro s r s' _ hg _ hrun
  cases hrun
  exact ⟨.single (.locks s _), guarded_readonly hg false, trivial⟩

end Action

/-- A request gives up all guards that it takes, and writes only what its thread may
write. -/
theorem orderly_request {α : Type} (hW : Covers W who.thread G) (r : Request α)
    (hr : r.isRestore = false) :
    Orderly agree W G (fun _ => True) (r.action who) fun _ _ => True := by
  cases r with
  | create id type => exact orderly_create hW id type
  | delete id => exact orderly_delete hW id
  | contains id => exact orderly_read fun _ _ h => h
  | info id => exact (quiet_vertexInfo id).orderly
  | connect r => exact orderly_connect hW r
  | disconnect anchor probe neighbor => exact orderly_disconnect hW anchor probe neighbor
  | count initial relationship terminal delta => exact orderly_count hW _ _ _ _
  | accumulate initial relationship terminal delta => exact orderly_accumulate hW _ _ _ _
  | addTo initial relationship terminal kind delta => exact orderly_addTo hW _ _ _ _ _
  | arcValue initial probe terminal => exact (quiet_arcValue initial probe terminal).orderly
  | adjacent anchor probe neighbor => exact (quiet_adjacent anchor probe neighbor).orderly
  | degree anchor probe => exact (quiet_degree anchor probe).orderly
  | neighborhood q => exact (quiet_neighborhood q).orderly
  | aggregate q => exact (quiet_aggregate q).orderly
  | terminals anchor relationship timeout => exact (quiet_ofNeighborhood _ _).orderly
  | initials anchor relationship timeout => exact (quiet_ofNeighborhood _ _).orderly
  | outarcs anchor timeout => exact (quiet_ofNeighborhood _ _).orderly
  | inarcs anchor timeout => exact (quiet_ofNeighborhood _ _).orderly
  | setReadonly => exact orderly_setReadonly
  | clearReadonly => exact orderly_clearReadonly
  | markExpiring id time => exact orderly_markExpiring hW id time
  | markArcExpiring initial relationship terminal time =>
    exact orderly_markArcExpiring hW initial relationship terminal time
  | runExpiration time => exact orderly_runExpiration hW time
  | snapshot => exact quiet_snapshot.orderly
  | restore s => cases hr

/-- A request through a handle writes the handle's vertex only, and only through a
writer's guard. -/
theorem orderly_handleRequest {α : Type} {g : Guard} (hW : g.hold = .writer → W g.item.slot)
    (r : HandleRequest α) :
    Orderly agree W G (fun _ => True) (r.action who g) fun _ _ => True := by
  cases r with
  | view => exact orderly_read fun _ _ h => h
  | setProperty name value => exact orderly_setProperty hW name value
  | removeProperty name => exact orderly_removeProperty hW name
  | setVector vector => exact orderly_setVector hW vector
  | setExpiration time => exact orderly_setExpiration hW time

end Requests

namespace Session

/-! ## Handles -/

/-- The guards of the open handles. -/
def guards (s : Session) : List Guard := s.handles.values

/-- The store is sound, and its locks account for the handles. -/
structure Sound (agree : Agreement) (s : Session) : Prop where
  store : s.store.Sound agree
  guarded : s.store.Guarded s.guards
  owner : ∀ name g, s.handle? name = some g → g.thread = name.thread

/-- The same with guards of a thread that are no handles yet; whatever the thread holds
writable, it may write. -/
structure Held (agree : Agreement) (W : CellId → Prop) (u : Thread) (s : Session)
    (new : List Guard) : Prop where
  store : s.store.Sound agree
  guarded : s.store.Guarded (new ++ s.guards)
  owner : ∀ name g, s.handle? name = some g → g.thread = name.thread
  thread : ∀ g ∈ new, g.thread = u
  owned : ∀ g ∈ new ++ s.guards, g.thread = u → g.hold = .writer → W g.item.slot

variable {agree : Agreement} {W : CellId → Prop} {u : Thread} {s : Session} {new : List Guard}

theorem Held.sound (h : s.Held agree W u []) : s.Sound agree := ⟨h.store, h.guarded, h.owner⟩

/-- What a thread may write is what it has to itself before the operation. -/
theorem Held.of_guarded {G : List Guard} (hs : s.store.Sound agree)
    (hg : s.store.Guarded (new ++ s.guards)) (ho : ∀ name g, s.handle? name = some g →
      g.thread = name.thread) (hu : ∀ g ∈ new, g.thread = u) (hW : Covers W u G)
    (hG : ∀ g ∈ G, g ∈ new ++ s.guards) : s.Held agree W u new := by
  refine ⟨hs, hg, ho, hu, fun g hm hthread hwriter => ?_⟩
  have hopen := LockTable.open_of_writer hg.accounts hm hwriter
  rw [hthread] at hopen
  exact hW _ (hopen.mono hG)

/-! ## Names -/

theorem guards_perm_of_handle? {name : GuardName} {g : Guard} (h : s.handle? name = some g) :
    s.guards.Perm (g :: (s.handles.erase name).values) := AssocMap.values_perm_of_get? h

theorem mem_guards_of_handle? {name : GuardName} {g : Guard} (h : s.handle? name = some g) :
    g ∈ s.guards := AssocMap.mem_values_iff.2 ⟨name, h⟩

theorem owner_erase (h : ∀ name g, s.handle? name = some g → g.thread = name.thread)
    (name : GuardName) : ∀ name' g, (s.handles.erase name).get? name' = some g →
      g.thread = name'.thread := by
  intro name' g hg
  rw [AssocMap.get?_erase] at hg
  split at hg
  · cases hg
  · exact h name' g hg

theorem owner_insert (h : ∀ name g, s.handle? name = some g → g.thread = name.thread)
    {name : GuardName} {g : Guard} (hg : g.thread = name.thread) :
    ∀ name' g', (s.handles.insert name g).get? name' = some g' → g'.thread = name'.thread := by
  intro name' g' hg'
  rw [AssocMap.get?_insert] at hg'
  split at hg'
  next he =>
    rw [← Option.some.inj hg', hg, he]
  next => exact h name' g' hg'

/-! ## Closing and keeping -/

theorem steps_close (h : s.Held agree W u new) (name : GuardName) (hname : name.thread = u) :
    Steps W s.store (s.close name).store ∧ (s.close name).Held agree W u new := by
  unfold close
  cases hold : s.handle? name with
  | none => exact ⟨.refl, h⟩
  | some g =>
    have hperm : (new ++ s.guards).Perm (g :: (new ++ (s.handles.erase name).values)) :=
      ((guards_perm_of_handle? hold).append_left new).trans List.perm_middle
    have hown : g.hold = .writer → W g.item.slot :=
      h.owned g (List.mem_append_right new (mem_guards_of_handle? hold))
        ((h.owner name g hold).trans hname)
    obtain ⟨st, hg⟩ := drop_spec (h.guarded.perm hperm) hown
    refine ⟨st, Steps.sound st h.store, hg, owner_erase h.owner name, h.thread, fun g' hm => ?_⟩
    exact h.owned g' (hperm.mem_iff.2 (List.mem_cons_of_mem g hm))

theorem handle?_close (s : Session) (name : GuardName) : (s.close name).handle? name = none := by
  unfold close
  cases hold : s.handle? name with
  | none => exact hold
  | some g =>
    change (s.handles.erase name).get? name = none
    rw [AssocMap.get?_erase, if_pos rfl]

/-- A guard that is kept is one of the handles then, whatever was there before it. -/
theorem perm_keep (s : Session) (name : GuardName) (g : Guard) (new : List Guard) :
    (g :: new ++ (s.close name).guards).Perm (new ++ (s.keep name g).guards) := by
  have hvalues : (s.keep name g).guards = (s.close name).guards ++ [g] := by
    rw [guards, keep, AssocMap.values]
    change List.map Prod.snd ((s.close name).handles.insert name g).entries = _
    rw [AssocMap.entries_insert_of_get?_eq_none (handle?_close s name), List.map_append]
    rfl
  rw [hvalues, ← List.append_assoc]
  exact (List.perm_append_singleton g _).symm

theorem steps_keep {g : Guard} (h : s.Held agree W u (g :: new)) (name : GuardName)
    (hname : name.thread = u) :
    Steps W s.store (s.keep name g).store ∧ (s.keep name g).Held agree W u new := by
  obtain ⟨st, hclosed⟩ := steps_close h name hname
  have hperm := perm_keep s name g new
  have hmem : g ∈ g :: new := List.mem_cons_self
  refine ⟨st, hclosed.store, hclosed.guarded.perm hperm, ?_, fun g' hm =>
    h.thread g' (List.mem_cons_of_mem g hm), fun g' hm => hclosed.owned g' (hperm.mem_iff.2 hm)⟩
  exact owner_insert hclosed.owner ((h.thread g hmem).trans hname.symm)

theorem steps_keepAll (h : s.Held agree W u new) (names : List String) :
    Steps W s.store (s.keepAll u names new).store ∧ (s.keepAll u names new).Held agree W u [] := by
  induction new generalizing s names with
  | nil =>
    cases names with
    | nil => exact ⟨.refl, h⟩
    | cons name names => exact ⟨.refl, h⟩
  | cons g rest ih =>
    cases names with
    | nil =>
      have hown : g.hold = .writer → W g.item.slot :=
        h.owned g List.mem_cons_self (h.thread g List.mem_cons_self)
      obtain ⟨st, hg⟩ := drop_spec h.guarded hown
      have hrest : ({ s with store := s.store.drop g } : Session).Held agree W u rest :=
        ⟨Steps.sound st h.store, hg, h.owner, fun g' hm => h.thread g' (List.mem_cons_of_mem g hm),
          fun g' hm => h.owned g' (List.mem_cons_of_mem g hm)⟩
      obtain ⟨st', hall⟩ := ih hrest []
      exact ⟨st.trans st', hall⟩
    | cons name names =>
      obtain ⟨st, hrest⟩ := steps_keep h ⟨u, name⟩ rfl
      obtain ⟨st', hall⟩ := ih hrest names
      exact ⟨st.trans st', hall⟩

end Session

end Arcbase
