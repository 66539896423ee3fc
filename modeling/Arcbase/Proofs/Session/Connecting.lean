import Arcbase.Proofs.Session.Linking
set_option autoImplicit false

/-!
# What a connect does to the slots of a graph

A connect that succeeds admits the terminals toward which its condition holds in the graph
as it was.  Toward these it writes the slot of its kind, and with a lifespan the slot of the
end of the relationship; all other slots stay as they were, on both sides.  What it leaves
in a slot is told by `ArcRequest.Leaves`; its answer is the number of slots of its kind that
were vacant, and the size of the graph grows by all that were (`connected_exact`).
-/

namespace Arcbase

open Arcbase.Action Store

/-! ## What is left in a slot -/

/-- The number that a request adds, where its kind adds. -/
inductive ArcRequest.Adds (r : ArcRequest) : Binary64 → Prop where
  | one (adding : r.kind.isAccumulating = true) (silent : r.value = none) : Adds r (.ofInt 1)
  | given {raw : Binary64} {v : ArcValue} (adding : r.kind.isAccumulating = true)
      (value : r.value = some raw) (coerced : r.kind.coerce raw = .ok v) : Adds r v.toNumber

/-- What a request leaves in a slot of its kind that was vacant, or held a value. -/
inductive ArcRequest.Leaves (r : ArcRequest) (now : UInt32) :
    Option ArcValue → ArcValue → Prop where
  | given {raw : Binary64} {v : ArcValue} (old : Option ArcValue)
      (setting : r.kind.isAccumulating = false) (value : r.value = some raw)
      (coerced : r.kind.coerce raw = .ok v) : Leaves r now old v
  | default (setting : r.kind.isAccumulating = false) (silent : r.value = none) :
      Leaves r now none (r.kind.defaultValue now)
  | kept (v : ArcValue) (setting : r.kind.isAccumulating = false) (silent : r.value = none)
      (steady : r.kind ≠ .timeModified) : Leaves r now (some v) v
  | renewed (v : ArcValue) (silent : r.value = none) (stamp : r.kind = .timeModified) :
      Leaves r now (some v) (.unsigned now)
  | started {delta : Binary64} (adds : r.Adds delta) : Leaves r now none (r.kind.saturate delta)
  | added {delta : Binary64} (v : ArcValue) (adds : r.Adds delta) :
      Leaves r now (some v) (r.kind.saturate (v.toNumber.add delta))

theorem leaves_apply {r : ArcRequest} {u : ArcUpdate} (h : ArcUpdate.ofRequest r = .ok u)
    (now : UInt32) (old : Option ArcValue) : r.Leaves now old (u.apply r.kind old now) := by
  rcases ArcUpdate.ofRequest_cases h with
    ⟨hvalue, ⟨hadds, rfl⟩ | ⟨hsets, rfl⟩⟩ | ⟨raw, v, hvalue, hcoerced, ⟨hadds, rfl⟩ | ⟨hsets, rfl⟩⟩
  · cases old with
    | none => exact .started (.one hadds hvalue)
    | some v => exact .added v (.one hadds hvalue)
  · cases old with
    | none => exact .default hsets hvalue
    | some v =>
      by_cases hkind : r.kind = .timeModified
      · rw [ArcUpdate.apply, if_pos hkind]
        exact .renewed v hvalue hkind
      · rw [ArcUpdate.apply, if_neg hkind]
        exact .kept v hsets hvalue hkind
  · cases old with
    | none => exact .started (.given hadds hvalue hcoerced)
    | some v => exact .added v (.given hadds hvalue hcoerced)
  · exact .given old hsets hvalue hcoerced

/-- A lifespan ends at the latest when the clock does. -/
theorem toNat_lifespanEnd (now lifespan : UInt32) :
    (lifespanEnd now lifespan).toNat = min (now.toNat + lifespan.toNat) 4294967295 := by
  have hsize : UInt32.size = 4294967296 := rfl
  rw [lifespanEnd]
  split
  next hover =>
    rw [UInt32.toNat_ofNat_of_lt' (by rw [hsize]; decide), hsize]
    omega
  next hroom =>
    rw [UInt32.toNat_add, Nat.mod_eq_of_lt (by omega)]
    omega

/-! ## The slots of a request -/

/-- A connect has written toward some terminals, and has counted its new arcs. -/
structure Connected (now : UInt32) (r : ConnectRequest) (ids : List String) (n : Nat)
    (s s' : Store) : Prop where
  /-- A lifespan comes after the value of the request, in the same slot too. -/
  own : ∀ t ∈ ids, ¬ (r.arc.kind = .timeExpires ∧ r.lifespan.isSome = true) →
    ∃ a, s'.slot? (r.slot r.arc.kind t) = some a ∧
      r.arc.Leaves now ((s.slot? (r.slot r.arc.kind t)).map (·.value)) a.value ∧
      a.forwardOnly = (s.slot? (r.slot r.arc.kind t)).elim r.arc.forwardOnly (·.forwardOnly)
  ending : ∀ t ∈ ids, ∀ lifespan, r.lifespan = some lifespan →
    ∃ a time, s'.slot? (r.slot .timeExpires t) = some a ∧ a.value = .unsigned time ∧
      time.toNat = min (now.toNat + lifespan.toNat) 4294967295 ∧
      a.forwardOnly = (s.slot? (r.slot .timeExpires t)).elim r.arc.forwardOnly (·.forwardOnly)
  /-- The terminal has the regular arcs too. -/
  mirrored : ∀ t ∈ ids, ∀ kind, r.Writes kind → s'.inwardSlot? (r.slot kind t) =
    (s'.slot? (r.slot kind t)).filter fun a => !a.forwardOnly
  others : ∀ slot, ¬ (r.Covers ids slot ∧ r.Writes slot.kind) →
    s'.slot? slot = s.slot? slot ∧ s'.inwardSlot? slot = s.inwardSlot? slot
  count : n = r.vacant r.arc.kind s ids
  size : s'.size = s.size + (n +
    if r.lifespan.isSome ∧ r.arc.kind ≠ .timeExpires then r.vacant .timeExpires s ids else 0)

theorem Action.Answered.connected {now : UInt32} {r : ConnectRequest} {u : ArcUpdate}
    {ids : List String} {answer : Nat × Option ArcValue} {s s' : Store}
    (h : Answered now r u ids answer s s') (hu : ArcUpdate.ofRequest r.arc = .ok u) :
    Connected now r ids answer.1 s s' := by
  obtain ⟨code, hslots⟩ := h.relinked
  have hslot : ∀ t ∈ ids, ∀ kind, s'.slot? (r.slot kind t) =
      r.leaves now code u kind (s.slot? (r.slot kind t)) := fun t ht kind => by
    rw [hslots.slot, if_pos (ConnectRequest.covers_slot kind ht)]
    rfl
  refine ⟨fun t ht hkind => ?_, fun t ht lifespan hlifespan => ?_, fun t ht kind hw => ?_,
    fun slot hnot => ⟨?_, hslots.inward slot hnot⟩, h.count, h.size⟩
  · exact ⟨_, (hslot t ht _).trans (leaves_own hkind), leaves_apply hu now _, rfl⟩
  · obtain ⟨a, ha, hvalue, hforward⟩ := leaves_ending now code u
      (s.slot? (r.slot .timeExpires t)) hlifespan
    exact ⟨a, _, (hslot t ht _).trans ha, hvalue, toNat_lifespanEnd now lifespan, hforward⟩
  · exact hslots.mirrored _ (ConnectRequest.covers_slot kind ht) hw
  · rw [hslots.slot]
    split
    next hcovers => exact leaves_of_not_writes fun hw => hnot ⟨hcovers, hw⟩
    next => rfl

/-! ## Requests -/

/-- A connect is an update of the slots toward the terminals that it admits. -/
theorem connected_exact {s : Session} {who : Caller} {r : ConnectRequest} {n : Nat}
    (h : Arises (fun _ => True) s) (hok : (s.ask who (.connect r)).1 = .ok n) :
    ∃ gate, r.condition.mapM s.store.gateOf = .ok gate ∧
      Connected who.now r (r.admitted gate s.store) n s.store
        (s.ask who (.connect r)).2.store := by
  have hs := h.reach.sound
  cases hrun : (connect who r).run s.store with
  | mk answer s' =>
    have hask : (s.ask who (.connect r)).1 = answer ∧ (s.ask who (.connect r)).2.store = s' := by
      rw [Session.ask, Request.action, Session.perform, hrun]
      exact ⟨rfl, rfl⟩
    rw [hask.2]
    rw [hask.1] at hok
    rcases run_connect hrun with ⟨e, _, herror, _⟩ | ⟨u, outcome, hu, hwith, hanswer⟩
    · cases hok.symm.trans herror
    · cases outcome with
      | error e => cases hok.symm.trans hanswer
      | ok written =>
        have hwent := run_connectWith hs.store hs.guarded h.labels hwith
        obtain ⟨gate, hgate, hanswered⟩ := hwent.answered hs.store h.lawful.named
        obtain rfl : n = written.1 := Except.ok.inj (hok.symm.trans hanswer)
        exact ⟨gate, hgate, hanswered.connected hu⟩

/-- A graph in which `a` knows `b`. -/
def acquainted : Session :=
  (Operation.ask (.connect
    { initial := "a", arc := { relationship := "r" }, terminals := .one "b" })).after
      ⟨⟨"m"⟩, 10⟩ (.new {} .new)

theorem arises_acquainted : Arises (fun _ => True) acquainted :=
  (Arises.start {} 65535 65535 .refl).step ⟨⟨"m"⟩, 10⟩ (.ask (.connect
    { initial := "a", arc := { relationship := "r" }, terminals := .one "b" })) trivial

/-- Whoever is known has been seen now, and is known until the clock ends. -/
def meet : ConnectRequest :=
  { initial := "a", arc := { relationship := "r", kind := .timeModified }
    terminals := .one "b", condition := some { probe := .along "r" .out, negate := false }
    lifespan := some 4294967290 }

/-- The vertex `b` is admitted, and the time at which it was seen is new. -/
theorem connected_exact_acquainted :
    (acquainted.ask ⟨⟨"m"⟩, 12⟩ (.connect meet)).1 = .ok 1 ∧
      ∃ gate, meet.condition.mapM acquainted.store.gateOf = .ok gate ∧
        meet.admitted gate acquainted.store = ["b"] ∧
        Connected 12 meet ["b"] 1 acquainted.store
          (acquainted.ask ⟨⟨"m"⟩, 12⟩ (.connect meet)).2.store := by
  obtain ⟨hok, hlets⟩ : (acquainted.ask ⟨⟨"m"⟩, 12⟩ (.connect meet)).1 = .ok 1 ∧
      (meet.condition.mapM acquainted.store.gateOf).map (meet.admitted · acquainted.store) =
        .ok ["b"] := by
    set_option maxRecDepth 10000 in
    cbv
  obtain ⟨gate, hgate, hconnected⟩ := connected_exact arises_acquainted hok
  have hadmitted : ∀ g, meet.condition.mapM acquainted.store.gateOf = .ok g →
      meet.admitted g acquainted.store = ["b"] := by
    intro g hg
    rw [hg] at hlets
    exact Except.ok.inj hlets
  exact ⟨hok, gate, hgate, hadmitted gate hgate, hadmitted gate hgate ▸ hconnected⟩

end Arcbase
