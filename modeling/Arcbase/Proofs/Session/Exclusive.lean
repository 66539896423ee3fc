import Arcbase.Proofs.Action.Admitting
import Arcbase.Proofs.Session.Arising
import Mathlib
set_option autoImplicit false

/-!
# Forward-only and regular arcs do not meet

Be it in use or restored, no graph has a vertex that is the terminal of a forward-only and
of a regular arc.  A connect to one vertex that comes to check its terminal is refused for
its sort exactly if an arc of the other sort is toward that vertex (`exclusive_exact`).
-/

namespace Arcbase

open Arcbase.Action Store

namespace Store

variable {agree : Agreement} {s s' : Store} {r : ArcRequest} {code : LabelCode} {i t : CellId}
  {initial b : String}

/-- What stands against an arc for its sort, and what else may. -/
theorem arcFault?_exact (hs : s'.Sound agree) (harcs : ∀ p, p ∈ s'.arcs ↔ p ∈ s.arcs)
    (hi : s'.lookup initial = some i) (ht : s'.lookup b = some t) :
    (s'.arcFault? r code i t = some (.regularNotAllowed b) ↔
        r.forwardOnly = false ∧ ∃ p ∈ s.arcs, p.terminal = .of b ∧ p.arc.forwardOnly = true) ∧
      (s'.arcFault? r code i t = some (.forwardOnlyNotAllowed b) ↔
        r.forwardOnly = true ∧ ∃ p ∈ s.arcs, p.terminal = .of b ∧ p.arc.forwardOnly = false) ∧
      ((∀ p ∈ s.arcs, p.terminal = .of b → p.arc.forwardOnly = r.forwardOnly) →
        (r.kind = .timeCreated → ∀ p ∈ s.arcs, p.initial = .of initial → p.terminal = .of b →
          p.arc.kind = .timeCreated → p.arc.relationship ≠ code) →
        s'.arcFault? r code i t = none) := by
  obtain ⟨hlive, hid⟩ := hs.placed.of_lookup ht
  have hkey := hs.placed.keyOf_of_lookup ht
  have hcount : 0 < (s'.data t).forwardOnlyIn ↔
      ∃ p ∈ s.arcs, p.terminal = .of b ∧ p.arc.forwardOnly = true := by
    rw [Nat.pos_iff_ne_zero, Ne, forwardOnlyIn_eq_zero_iff hs hlive, hkey]
    simp [harcs]
  have hinbound : (s'.data t).inbound.isEmpty = false ↔
      ∃ p ∈ s.arcs, p.terminal = .of b ∧ p.arc.forwardOnly = false := by
    rw [← Bool.not_eq_true, inbound_isEmpty_iff hs hlive, hkey]
    simp [harcs]
  by_cases hmixed : r.forwardOnly = true ∧ (s'.data t).inbound.isEmpty = false
  · have hfault : s'.arcFault? r code i t = some (.forwardOnlyNotAllowed b) := by
      simp [arcFault?, hmixed.1, hmixed.2, hid]
    rw [hfault]
    refine ⟨⟨fun h => ?_, fun h => ?_⟩,
      ⟨fun _ => ⟨hmixed.1, hinbound.1 hmixed.2⟩, fun _ => rfl⟩, fun hall _ => ?_⟩
    · cases h
    · exact Bool.noConfusion (hmixed.1.symm.trans h.1)
    · obtain ⟨p, hp, hterminal, hregular⟩ := hinbound.1 hmixed.2
      exact Bool.noConfusion (hregular.symm.trans ((hall p hp hterminal).trans hmixed.1))
  by_cases hcounted : r.forwardOnly = false ∧ 0 < (s'.data t).forwardOnlyIn
  · have hfault : s'.arcFault? r code i t = some (.regularNotAllowed b) := by
      simp [arcFault?, hcounted.1, hcounted.2, hid]
    rw [hfault]
    refine ⟨⟨fun _ => ⟨hcounted.1, hcount.1 hcounted.2⟩, fun _ => rfl⟩,
      ⟨fun h => ?_, fun h => ?_⟩, fun hall _ => ?_⟩
    · cases h
    · exact Bool.noConfusion (hcounted.1.symm.trans h.1)
    · obtain ⟨p, hp, hterminal, hforward⟩ := hcount.1 hcounted.2
      exact Bool.noConfusion (hcounted.1.symm.trans ((hall p hp hterminal).symm.trans hforward))
  have hrest : s'.arcFault? r code i t =
      if r.kind = .timeCreated ∧
        ((s'.data i).out.get? (s'.cell t).key code .timeCreated).isSome then
        some .creationTimeReassigned
      else none := by
    rw [arcFault?, if_neg fun h => hmixed (by simpa using h),
      if_neg fun h => hcounted (by simpa using h)]
  rw [hrest]
  refine ⟨⟨fun h => ?_, fun h => absurd ⟨h.1, hcount.2 h.2⟩ hcounted⟩,
    ⟨fun h => ?_, fun h => absurd ⟨h.1, hinbound.2 h.2⟩ hmixed⟩, fun _ hslot => if_neg ?_⟩
  · split at h <;> cases h
  · split at h <;> cases h
  · rintro ⟨hkind, hsome⟩
    obtain ⟨a, ha⟩ := Option.isSome_iff_exists.1 hsome
    obtain ⟨_, hcode, hcreated⟩ := ArcIndex.get?_slot ha
    have hp := (harcs _).1 (arcAt?_mem_arcs hs (hs.placed.of_lookup hi).1 ha)
    exact hslot hkind _ hp (hs.placed.keyOf_of_lookup hi) hkey hcreated hcode

end Store

variable {s : Session}

/-- No vertex is the terminal of forward-only and of regular arcs, and a connect that comes
to check its terminal is refused for its sort exactly if arcs of the other sort are there. -/
theorem exclusive_exact (h : Arises (fun _ => True) s) :
    (∀ p ∈ s.store.arcs, ∀ q ∈ s.store.arcs, p.terminal = q.terminal →
        p.arc.forwardOnly = q.arc.forwardOnly) ∧
      ∀ who r b, s.store.Reaches who r b →
        ((s.ask who (.connect r)).1 = .error (.arc (.regularNotAllowed b)) ↔
          r.arc.forwardOnly = false ∧
            ∃ p ∈ s.store.arcs, p.terminal = .of b ∧ p.arc.forwardOnly = true) ∧
        ((s.ask who (.connect r)).1 = .error (.arc (.forwardOnlyNotAllowed b)) ↔
          r.arc.forwardOnly = true ∧
            ∃ p ∈ s.store.arcs, p.terminal = .of b ∧ p.arc.forwardOnly = false) ∧
        ((∀ p ∈ s.store.arcs, p.terminal = .of b → p.arc.forwardOnly = r.arc.forwardOnly) →
          (r.arc.kind = .timeCreated → ∀ p ∈ s.store.arcs, p.initial = .of r.initial →
            p.terminal = .of b → p.arc.kind = .timeCreated →
              s.store.labels.relationships.decode? p.arc.relationship ≠
                some r.arc.relationship) →
          ∃ n, (s.ask who (.connect r)).1 = .ok n) := by
  have hs := h.reach.sound
  refine ⟨h.lawful.exclusive, fun who r b hreaches => ?_⟩
  obtain ⟨i, t, code, s', hs', harcs, hgrows, hcode, hi, ht, hfail, hok⟩ :=
    run_connect_of_reaches hs.store hs.guarded h.labels hreaches
  obtain ⟨hregular, hforward, hnone⟩ :=
    arcFault?_exact (r := r.arc) hs' harcs hi ht
  -- the outcome is that of the check
  have hexact : ∀ fault, (s.ask who (.connect r)).1 = .error (.arc fault) ↔
      s'.arcFault? r.arc code i t = some fault := by
    intro fault
    refine ⟨fun herror => ?_, hfail fault⟩
    cases hfault : s'.arcFault? r.arc code i t with
    | none =>
      obtain ⟨n, hn⟩ := hok hfault
      exact nomatch herror.symm.trans hn
    | some other =>
      have := herror.symm.trans (hfail other hfault)
      exact congrArg some (Error.arc.inj (Except.error.inj this)).symm
  refine ⟨(hexact _).trans hregular, (hexact _).trans hforward, fun hall hslot => ?_⟩
  refine hok (hnone hall fun hkind p hp hinitial hterminal hcreated hrel => ?_)
  obtain ⟨label, hlabel⟩ := h.lawful.named.arcs p hp
  have hsame := (hgrows.keeps _ _ hlabel).symm.trans (hrel ▸ hcode)
  exact hslot hkind p hp hinitial hterminal hcreated (hlabel.trans hsame)

/-- A vertex that is the terminal of a forward-only arc. -/
def sealed : Session :=
  (Operation.ask (.connect
    { initial := "a", arc := { relationship := "r", forwardOnly := true },
      terminals := .one "b" })).after ⟨⟨"m"⟩, 5⟩ (.new {} .new)

theorem arises_sealed : Arises (fun _ => True) sealed :=
  (Arises.start {} 65535 65535 .refl).step ⟨⟨"m"⟩, 5⟩ (.ask (.connect
    { initial := "a", arc := { relationship := "r", forwardOnly := true },
      terminals := .one "b" })) trivial

/-- A regular connect to that vertex, from another one. -/
def regularToSealed : ConnectRequest :=
  { initial := "c", arc := { relationship := "r" }, terminals := .one "b" }

theorem reaches_regularToSealed : sealed.store.Reaches ⟨⟨"m"⟩, 6⟩ regularToSealed "b" := by
  obtain ⟨hfound, hapart, hhold, hfaults, hroom⟩ :
      (sealed.store.lookupKey (.of "c") = none ∧ sealed.store.lookupKey (.of "b") = some 1 ∧
        (sealed.store.cell 1).id = "b") ∧
      (VertexKey.of "b" == .of "c") = false ∧ sealed.store.CanHold ⟨"m"⟩ 1 ∧
      (sealed.store.identifierFault? "c" = none ∧ sealed.store.identifierFault? "b" = none) ∧
      (sealed.store.labels.encodeRelationship "r").1 = .ok 0 := by
    set_option maxRecDepth 10000 in
    cbv
  have hkeys : ∀ id ∈ ["c", "b"], ∀ c, sealed.store.lookupKey (.of id) = some c →
      c = 1 ∧ (sealed.store.cell c).id = id := by
    intro id hid c hc
    rcases List.mem_cons.1 hid with rfl | hid
    · exact absurd (hc.symm.trans hfound.1) (Option.some_ne_none c)
    · obtain rfl := List.mem_singleton.1 hid
      obtain rfl := Option.some.inj (hfound.2.1.symm.trans hc)
      exact ⟨rfl, hfound.2.2⟩
  exact
    { writable := hhold.1
      named := hfaults
      unclashing := fun id hid c hc => (hkeys id hid c hc).2
      apart := fun e => absurd e (beq_eq_false_iff_ne.1 hapart)
      lockable := fun id hid c hc =>
        (hkeys id hid c (Option.filter_eq_some_iff.1 hc).1).1 ▸ hhold
      single := rfl
      value := ⟨_, rfl⟩
      relationship := by decide
      room := ⟨0, hroom⟩
      admitted := ⟨none, rfl, fun g hg => absurd hg (Option.not_mem_none g)⟩ }

/-- The connect is refused for the forward-only arc. -/
theorem exclusive_exact_sealed :
    (sealed.ask ⟨⟨"m"⟩, 6⟩ (.connect regularToSealed)).1 =
        .error (.arc (.regularNotAllowed "b")) ∧
      ∃ p ∈ sealed.store.arcs, p.terminal = .of "b" ∧ p.arc.forwardOnly = true := by
  have hrefused : (sealed.ask ⟨⟨"m"⟩, 6⟩ (.connect regularToSealed)).1 =
      .error (.arc (.regularNotAllowed "b")) := by
    set_option maxRecDepth 10000 in
    cbv
  have hexact := (exclusive_exact arises_sealed).2 ⟨⟨"m"⟩, 6⟩ regularToSealed "b"
    reaches_regularToSealed
  exact ⟨hrefused, (hexact.1.1 hrefused).2⟩

end Arcbase
