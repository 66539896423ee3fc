import Arcbase.Proofs.Action.Unopposed
import Arcbase.Proofs.Session.Arising
import Arcbase.Proofs.Session.Expirations
import Arcbase.Proofs.Session.Retrying
import Mathlib
set_option autoImplicit false

/-!
# Graphs in which nothing is held

While no handle is open and the read-only flag is down no operation meets with anything that
is held, be it by itself, with one exception: where one level is all that a thread may have
of a vertex, a relationship that is there cannot be scheduled, as the call holds both ends
and then takes them again to write the time (`hindered_exact`).
-/

namespace Arcbase

open Arcbase.Action Store

/-- Whether a request walks the graph from a vertex for as long as its time allows. -/
def Request.isQuery {α : Type} : Request α → Bool
  | .neighborhood _ | .aggregate _ | .terminals .. | .initials .. | .outarcs .. | .inarcs .. => true
  | _ => false

namespace Operation

def isQuery : Operation → Bool
  | ask r => r.isQuery
  | _ => false

/-- An operation fails because of what is held, be it at once or part way. -/
def Hindered (who : Caller) (s : Session) (op : Operation) : Prop :=
  ∃ e, op.Fails who s e ∧ (e.isRetrySafe || e.partialCount.isSome) = true

/-- An operation that schedules a relationship that is there, while one level is all that a
thread may have of a vertex. -/
def Nests (s : Session) : Operation → Prop
  | ask (.markArcExpiring initial relationship terminal _) =>
    s.store.locks.limit = 1 ∧ ¬ (relationship = "" ∨ relationship = Probe.wildcard) ∧
      s.store.Related initial relationship terminal
  | _ => False

end Operation

variable {agree : Agreement} {ok : Operation → Prop} {s : Session} {who : Caller}

/-! ## One request -/

/-- Requests that hold no vertex twice are not hindered. -/
theorem concludes_request {α : Type} (r : Request α) (hquery : r.isQuery = false)
    (hset : (Operation.ask r).setsReadonly = false)
    (hmark : ∀ initial relationship terminal time,
      Operation.ask r ≠ .ask (.markArcExpiring initial relationship terminal time)) :
    Concludes agree [] who (r.action who) := by
  cases r with
  | create id type => exact concludes_create id type
  | delete id => exact concludes_delete id
  | contains id => exact (avoids_read _).concludes
  | info id => exact concludes_vertexInfo id
  | connect r => exact concludes_connect r
  | disconnect anchor probe neighbor => exact concludes_disconnect anchor probe neighbor
  | count initial relationship terminal delta => exact concludes_count _ _ _ _
  | accumulate initial relationship terminal delta => exact concludes_accumulate _ _ _ _
  | addTo initial relationship terminal kind delta => exact concludes_addTo _ _ _ _ _
  | arcValue initial probe terminal => exact concludes_arcValue initial probe terminal
  | adjacent anchor probe neighbor => exact concludes_adjacent anchor probe neighbor
  | degree anchor probe => exact concludes_degree anchor probe
  | clearReadonly => exact (avoids_update _).concludes
  | markExpiring id time => exact concludes_markExpiring id time
  | markArcExpiring initial relationship terminal time => exact absurd rfl (hmark _ _ _ _)
  | runExpiration time =>
    intro s r s' hs hrun
    obtain ⟨report, rfl, _⟩ := requeued_runExpiration hs hrun
    exact concluded_ok
  | snapshot => exact concludes_snapshot
  | restore snapshot => exact concludes_restore snapshot
  | setReadonly => cases hset
  | _ => cases hquery

theorem not_hindered_of_concluded {α : Type} {r : Except Error α} (h : Concluded r) :
    ¬ ∃ e, r = .error e ∧ (e.isRetrySafe || e.partialCount.isSome) = true := by
  rintro ⟨e, he, hsort⟩
  rw [h e he] at hsort
  cases hsort

/-- Where nothing is held nothing stands in the way of anyone. -/
theorem Arises.clear (h : Arises ok s) (hidle : ∀ name, s.handle? name = none)
    (hdown : s.store.locks.readonly = false) (me : Thread) : s.store.Clear .slots [] me := by
  have hs := h.reach.sound
  have hg : s.store.Guarded [] := guards_eq_nil hidle ▸ hs.guarded
  exact ⟨hs.store, hg, LockTable.unopposed_nil hg.accounts hdown⟩

/-- Scheduling a relationship is hindered exactly if it holds its ends once too often. -/
theorem hindered_markArcExpiring_iff {initial relationship terminal : String} {time : UInt32}
    (hs : s.store.Clear agree [] who.thread) (hlawful : s.store.Lawful) :
    (Operation.ask (.markArcExpiring initial relationship terminal time)).Hindered who s ↔
      (Operation.ask (.markArcExpiring initial relationship terminal time)).Nests s := by
  constructor
  · intro hhindered
    by_contra hnests
    exact not_hindered_of_concluded (concluded_markArcExpiring hs fun hlimit hproper hrelated =>
      hnests ⟨hlimit, hproper, hrelated⟩) hhindered
  · rintro ⟨hlimit, hproper, hrelated⟩
    obtain ⟨cause, hrefused⟩ := refused_markArcExpiring hs hlawful hlimit hproper hrelated
    exact ⟨_, hrefused, rfl⟩

theorem not_hindered_openVertex (hs : s.store.Clear agree [] who.thread) (name id : String)
    (mode : OpenMode) : ¬ (Operation.openVertex name id mode).Hindered who s := by
  rintro ⟨e, hfails, hsort⟩
  refine not_hindered_of_concluded ((concludes_openVertex id mode).outcome hs) ⟨e, ?_, hsort⟩
  cases hrun : (Action.openVertex who id mode).run s.store with
  | mk r store =>
    simp only [Operation.Fails, Session.openVertex, Session.perform, hrun] at hfails
    cases r with
    | ok g => cases hfails
    | error e₁ =>
      cases hfails
      rfl

theorem not_hindered_openVertices (hs : s.store.Clear agree [] who.thread)
    (names ids : List String) (mode : OpenMode) :
    ¬ (Operation.openVertices names ids mode).Hindered who s := by
  rintro ⟨e, hfails, hsort⟩
  refine not_hindered_of_concluded ((concludes_openVertices ids mode).outcome hs) ⟨e, ?_, hsort⟩
  cases hrun : (Action.openVertices who ids mode).run s.store with
  | mk r store =>
    simp only [Operation.Fails, Session.openVertices, Session.perform, hrun] at hfails
    cases r with
    | ok guards => cases hfails
    | error e₁ =>
      cases hfails
      rfl

/-- Where nothing is held and the flag is down an operation is hindered exactly if it is to
schedule a relationship that is there, under a limit of one level; and a pass puts nothing
back. -/
theorem hindered_exact (h : Arises ok s) (hidle : ∀ name, s.handle? name = none)
    (hdown : s.store.locks.readonly = false) (who : Caller) :
    (∀ op : Operation, op.isQuery = false → op.setsReadonly = false →
      (op.Hindered who s ↔ op.Nests s)) ∧
    ∀ time, ∃ report, (s.ask who (.runExpiration time)).1 = .ok report ∧ report.requeued = 0 := by
  have hs := h.clear hidle hdown who.thread
  refine ⟨fun op hquery hset => ?_, fun time => requeued_runExpiration hs rfl⟩
  cases op with
  | @ask α r =>
    by_cases hmark : ∃ initial relationship terminal time,
        Operation.ask r = .ask (.markArcExpiring initial relationship terminal time)
    · obtain ⟨initial, relationship, terminal, time, he⟩ := hmark
      rw [he]
      exact hindered_markArcExpiring_iff hs h.lawful
    · have hconcluded := (concludes_request r hquery hset
        fun initial relationship terminal time he =>
          hmark ⟨initial, relationship, terminal, time, he⟩).outcome hs
      refine iff_of_false (not_hindered_of_concluded hconcluded) fun hnests => ?_
      cases r with
      | markArcExpiring initial relationship terminal time => exact hmark ⟨_, _, _, _, rfl⟩
      | _ => exact hnests
  | openVertex name id mode =>
    exact iff_of_false (not_hindered_openVertex hs name id mode) False.elim
  | openVertices names ids mode =>
    exact iff_of_false (not_hindered_openVertices hs names ids mode) False.elim
  | _ => exact iff_of_false (fun ⟨_, hfails, _⟩ => hfails) False.elim

/-! ## A limit of one level -/

/-- A relationship between two vertices, each of which a thread may hold at one level. -/
def shallow : Session :=
  (Operation.ask (.connect
    { initial := "a", arc := { relationship := "r" }, terminals := .one "b" })).after
      ⟨⟨"m"⟩, 5⟩ (.new { recursionLimit := 1 } .new)

/-- Schedules that relationship. -/
def markShallow : Operation := .ask (.markArcExpiring "a" "r" "b" 100)

theorem arises_shallow : Arises (fun _ => True) shallow :=
  (Arises.start { recursionLimit := 1 } 65535 65535 .refl).step _ _ trivial

theorem idle_shallow : ∀ name, shallow.handle? name = none := by
  have hempty : shallow.handles.size = 0 := by
    set_option maxRecDepth 10000 in
    cbv
  exact AssocMap.get?_eq_none_of_size_eq_zero hempty

theorem down_shallow : shallow.store.locks.readonly = false := by
  set_option maxRecDepth 10000 in
  cbv

theorem nests_shallow : markShallow.Nests shallow := by
  obtain ⟨hlimit, hpresent, harc⟩ : shallow.store.locks.limit = 1 ∧
      (shallow.store.contains "a" = true ∧ shallow.store.contains "b" = true) ∧
      (shallow.store.arcs.any fun p => p.initial == .of "a" && p.terminal == .of "b" &&
        shallow.store.labels.relationships.lookup? "r" == some p.arc.relationship) = true := by
    set_option maxRecDepth 10000 in
    cbv
  obtain ⟨p, hp, hends⟩ := List.any_eq_true.1 harc
  simp only [Bool.and_eq_true, beq_iff_eq] at hends
  exact ⟨hlimit, by decide, hpresent, p, hp, hends.1.1, hends.1.2, hends.2⟩

/-- Nobody holds anything, and the operation is hindered. -/
theorem hindered_exact_shallow :
    (∀ name, shallow.handle? name = none) ∧ shallow.store.locks.readonly = false ∧
      markShallow.Hindered ⟨⟨"m"⟩, 6⟩ shallow :=
  ⟨idle_shallow, down_shallow,
    ((hindered_exact arises_shallow idle_shallow down_shallow ⟨⟨"m"⟩, 6⟩).1 markShallow rfl rfl).2
      nests_shallow⟩

/-- An operation fails for what is held while nothing is held. -/
theorem not_unhindered_markShallow :
    ¬ ∀ s : Session, Arises (fun _ => True) s → (∀ name, s.handle? name = none) →
      s.store.locks.readonly = false → ∀ (who : Caller) (op : Operation),
        op.isQuery = false → op.setsReadonly = false → ¬ op.Hindered who s := by
  intro hall
  refine hall shallow arises_shallow idle_shallow down_shallow ⟨⟨"m"⟩, 6⟩ markShallow rfl rfl ?_
  exact (hindered_markArcExpiring_iff (arises_shallow.clear idle_shallow down_shallow _)
    arises_shallow.lawful).2 nests_shallow

end Arcbase
