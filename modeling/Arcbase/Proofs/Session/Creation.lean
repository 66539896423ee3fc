import Arcbase.Proofs.Session.Failing
import Arcbase.Proofs.Session.Turnover
set_option autoImplicit false

/-!
# Times of creation

When a vertex was created, and the arcs that say when a relationship was, are written once.
An operation that writes no arcs leaves every slot that it does not empty as it is
(`slotKept_of_moves`), and a request that connects writes a creation time only where there is
none (`Linking.slotKept`).  If there is one already toward a terminal that it admits, it fails
and writes nothing (`created_once`).
-/

namespace Arcbase

open Arcbase.Action Store

variable {α : Type} {agree : Agreement} {who : Caller} {r : ConnectRequest} {u : ArcUpdate}
  {G : List Guard} {s s' : Store} {n : SlotName} {e : Error}

/-! ## Slots -/

/-- What is in a slot before and afterwards is the same, on each side. -/
structure Store.SlotKept (n : SlotName) (s s' : Store) : Prop where
  slot : ∀ a a', s.slot? n = some a → s'.slot? n = some a' → a' = a
  inward : ∀ b b', s.inwardSlot? n = some b → s'.inwardSlot? n = some b' → b' = b

theorem Store.SameSlot.kept (h : SameSlot n s s') : SlotKept n s s' :=
  ⟨fun _ _ ha ha' => Option.some.inj (ha'.symm.trans (h.1.trans ha)),
    fun _ _ hb hb' => Option.some.inj (hb'.symm.trans (h.2.trans hb))⟩

/-- A regular arc of the terminal is one of the initial. -/
theorem Store.exists_slot?_of_inwardSlot? (hs : s.Sound agree) {b : StoredArc}
    (hb : s.inwardSlot? n = some b) : ∃ a, s.slot? n = some a := by
  obtain ⟨i, t, code, hnames⟩ := denotes_of_inwardSlot? hb
  rw [hnames.inwardSlot?] at hb
  obtain ⟨hm, rfl, hkind⟩ := ArcIndex.get?_slot hb
  obtain ⟨a, ha, _⟩ := hs.paired.out_of_inward (hs.placed.of_lookup hnames.initial).1
    (hs.placed.of_lookup hnames.terminal).1 hm
  exact ⟨a, hnames.slot?.trans (hkind ▸ ha)⟩

/-! ## Where no arc is written -/

section Moves

variable {D : String → Prop} {x y : Scene} (m : Moves D False x y) (hx : x.Ordered agree)
  (hn : x.store.Named)
include m hn

/-- A slot that has something in it goes by the codes that it went by. -/
theorem code_of_moves {i t i' t' : CellId} {code code' : LabelCode}
    (hnames : x.store.Denotes n i t code) (hnames' : y.store.Denotes n i' t' code') :
    code' = code := by
  have hcode := Store.lookup?_of_grows hn.valid (Moves.grows m) hnames.code
  exact Option.some.inj (hnames'.code.symm.trans hcode)

include hx

/-- An arc that is listed afterwards was listed before, under the same keys. -/
theorem slot?_eq_of_moves {a a' : StoredArc} (ha : x.store.slot? n = some a)
    (ha' : y.store.slot? n = some a') : a' = a := by
  have hs := hx.sound
  have hs' := (Moves.ordered m hx).sound
  obtain ⟨i, t, code, hnames⟩ := denotes_of_slot? ha
  obtain ⟨i', t', code', hnames'⟩ := denotes_of_slot? ha'
  obtain rfl := code_of_moves m hn hnames hnames'
  rw [hnames.slot?] at ha
  rw [hnames'.slot?] at ha'
  have hp := Moves.arcs_subset m hx id _
    (arcAt?_mem_arcs hs' (hs'.placed.of_lookup hnames'.initial).1 ha')
  obtain ⟨i₀, t₀, hi₀, ht₀, hki, hkt, ha₀⟩ := exists_arcAt? hs hp
  have hi : i₀ = i := hs.placed.eq_of_key hi₀ (hs.placed.of_lookup hnames.initial).1 <| by
    rw [hs'.placed.keyOf_of_lookup hnames'.initial] at hki
    exact hki.trans (hs.placed.keyOf_of_lookup hnames.initial).symm
  have ht : t₀ = t := hs.placed.eq_of_key ht₀ (hs.placed.of_lookup hnames.terminal).1 <| by
    rw [hs'.placed.keyOf_of_lookup hnames'.terminal] at hkt
    exact hkt.trans (hs.placed.keyOf_of_lookup hnames.terminal).symm
  obtain ⟨_, hrelationship, hkind⟩ := ArcIndex.get?_slot ha'
  rw [hi, ht, hrelationship, hkind] at ha₀
  exact Option.some.inj (ha₀.symm.trans ha)

/-- A terminal with a regular arc was there before, and had no fewer of them. -/
theorem inwardSlot?_eq_of_moves {b b' : StoredArc} (hb : x.store.inwardSlot? n = some b)
    (hb' : y.store.inwardSlot? n = some b') : b' = b := by
  have hs := hx.sound
  have hs' := (Moves.ordered m hx).sound
  obtain ⟨i, t, code, hnames⟩ := denotes_of_inwardSlot? hb
  obtain ⟨i', t', code', hnames'⟩ := denotes_of_inwardSlot? hb'
  obtain rfl := code_of_moves m hn hnames hnames'
  rw [hnames.inwardSlot?] at hb
  rw [hnames'.inwardSlot?] at hb'
  obtain ⟨hm, hrelationship, hkind⟩ := ArcIndex.get?_slot hb'
  obtain ⟨hlive', hid'⟩ := hs'.placed.of_lookup hnames'.terminal
  obtain ⟨hlivet, hidt⟩ := hs.placed.of_lookup hnames.terminal
  have hbefore := Moves.fewerInward m hx id _ _ hm
  have hlive : x.store.Live t' := by
    refine Steps.live_of_live (Moves.steps m hx) ?_ hlive'
    by_contra hout
    rw [data_of_size_le (Nat.le_of_not_lt hout)] at hbefore
    exact List.not_mem_nil hbefore
  have ht : t' = t := hs.placed.eq_of_id hlive hlivet <| by
    rw [hidt, ← hid']
    exact ((Steps.extends (Moves.steps m hx)).id t' hlive.1).symm
  have hkey : y.store.keyOf i' = x.store.keyOf i := by
    rw [hs'.placed.keyOf_of_lookup hnames'.initial, hs.placed.keyOf_of_lookup hnames.initial]
  rw [ht, hkey] at hbefore
  have hat := (ArcIndex.mem_arcsTo_iff (hs.paired.valid t hlivet).2 _ _).1 hbefore
  rw [hrelationship, hkind] at hat
  exact Option.some.inj (hat.symm.trans hb)

theorem slotKept_of_moves (n : SlotName) : SlotKept n x.store y.store :=
  ⟨fun _ _ => slot?_eq_of_moves m hx hn, fun _ _ => inwardSlot?_eq_of_moves m hx hn⟩

end Moves

/-! ## Where arcs are written -/

section Linking

variable {answer : Except Error α} (h : Linking agree who r G s answer s') (hs : s.Sound agree)
  (hs' : s'.Sound agree) (hn : s.Named) (grows : s.labels.Grows s'.labels)
include h hs hs' hn grows

theorem Linking.sameSlots (herror : answer = .error e) : s.SameSlots s' := by
  cases h with
  | unfit => exact .refl s
  | failed run => exact run.sameSlots hs hs' hn grows
  | done => cases herror

/-- A creation time is written only where there is none. -/
theorem Linking.slotKept (hkind : n.kind = .timeCreated) : SlotKept n s s' := by
  by_cases hw : r.Writes n.kind
  · cases h with
    | unfit fault => exact SameSlot.kept ⟨rfl, rfl⟩
    | failed run => exact SameSlot.kept (run.sameSlots hs hs' hn grows n)
    | done run =>
      obtain ⟨gate, _, hanswered⟩ := run.answered hs hn
      obtain ⟨code, hslots⟩ := hanswered.relinked
      by_cases hc : r.Covers (r.admitted gate s) n
      · have hown : r.arc.kind = .timeCreated := by
          rcases hw with hown | ⟨_, hending⟩
          · exact hown.symm.trans hkind
          · exact nomatch hending.symm.trans hkind
        have hslot : r.slot .timeCreated n.terminal = n := by
          rw [ConnectRequest.slot, ← hc.1, ← hc.2.1, ← hkind]
        have hvacant : s.slot? n = none := hslot ▸ hanswered.fresh hown n.terminal hc.2.2
        refine ⟨fun a _ ha _ => ?_, fun b _ hb _ => ?_⟩
        · exact nomatch hvacant.symm.trans ha
        · obtain ⟨a, ha⟩ := exists_slot?_of_inwardSlot? hs hb
          exact nomatch hvacant.symm.trans ha
      · refine SameSlot.kept ⟨?_, hslots.inward n fun h => hc h.1⟩
        rw [hslots.slot, if_neg hc]
  · exact (h.sameSlot hs hs' hn grows hw).kept

end Linking

/-- Only the end of a relationship is written where it is scheduled. -/
theorem not_writes_marking {initial relationship terminal : String} {time : UInt32}
    (hkind : n.kind = .timeCreated) :
    ¬ (marking initial relationship terminal time).Writes n.kind := by
  rw [hkind]
  simp [ConnectRequest.Writes, marking]

/-! ## Operations -/

/-- What says when something was created is as it was, wherever it is there before and after. -/
structure Store.KeepsCreation (s s' : Store) : Prop where
  slot : ∀ n : SlotName, n.kind = .timeCreated → SlotKept n s s'
  vertex : ∀ id c c', s.lookup id = some c → s'.lookup id = some c' →
    (s'.data c').created = (s.data c).created

/-- An operation but a restore keeps all times of creation. -/
theorem Arises.keepsCreation {ok : Operation → Prop} {s : Session} (h : Arises ok s) (who : Caller)
    (op : Operation) (hlive : op.Live) : s.store.KeepsCreation (op.after who s).store := by
  have hs := h.reach.sound
  have hs' := op.sound_after hs who
  have hn := h.lawful.named
  refine ⟨fun n hkind => ?_, fun id c c' hc hc' => ?_⟩
  · by_cases harcs : op.writesArcs = false
    · exact slotKept_of_moves (op.moves_arcless hs who harcs) hs.ordered hn n
    cases op with
    | ask request =>
      have hgrows := Operation.grows_after hs h.valid who (.ask request)
      have hlinked : ∀ {r}, request.connects? = some r →
          SlotKept n s.store ((Operation.ask request).after who s).store := fun hr =>
        (h.linking who hr).slotKept hs.store hs'.store hn hgrows hkind
      cases request with
      | connect | count | accumulate | addTo => exact hlinked rfl
      | markArcExpiring initial relationship terminal time =>
        exact ((run_markArcExpiring hs.store hs.guarded rfl).sameSlot hs.store h.labels hn
          (not_writes_marking hkind)).kept
      | restore => cases hlive
      | _ => exact absurd rfl harcs
    | _ => exact absurd rfl harcs
  · exact op.created_after hs h.labels hn hlive hc hc'

/-! ## Refusals -/

/-- What a request may fail with that would write a creation time toward some terminals where
there is one already: just that, or what is met before. -/
inductive ConnectRequest.Refuses (r : ConnectRequest) (ids : List String) (s : Store) :
    Error → Prop where
  | reassigned : Refuses r ids s (.arc .creationTimeReassigned)
  | early {e : Error} (early : e.Early) : Refuses r ids s e
  | unfit (fault : ValueFault) : Refuses r ids s (.arc (.invalidValue r.arc.kind fault))
  | forwardOnly {t : String} (among : t ∈ ids) (wanted : r.arc.forwardOnly = true)
      (taken : ∃ p ∈ s.arcs, p.terminal = .of t ∧ p.arc.forwardOnly = false) :
      Refuses r ids s (.arc (.forwardOnlyNotAllowed t))
  | regular {t : String} (among : t ∈ ids) (wanted : r.arc.forwardOnly = false)
      (taken : ∃ p ∈ s.arcs, p.terminal = .of t ∧ p.arc.forwardOnly = true) :
      Refuses r ids s (.arc (.regularNotAllowed t))

theorem Store.arcFault?_cases {request : ArcRequest} {code : LabelCode} {i t : CellId}
    {fault : ArcError} (h : s.arcFault? request code i t = some fault) :
    fault = .forwardOnlyNotAllowed (s.cell t).id ∨ fault = .regularNotAllowed (s.cell t).id ∨
      fault = .creationTimeReassigned := by
  unfold arcFault? at h
  dsimp only at h
  split at h
  · exact .inl (Option.some.inj h).symm
  split at h
  · exact .inr (.inl (Option.some.inj h).symm)
  split at h
  · exact .inr (.inr (Option.some.inj h).symm)
  · cases h

theorem Store.refuses_of_arcFault? {code : LabelCode} {i c : CellId} {fault : ArcError} {t : String}
    {ids : List String} (h : s'.arcFault? r.arc code i c = some fault) (hs : s'.Sound agree)
    (harcs : ∀ p, p ∈ s'.arcs ↔ p ∈ s.arcs) (hi : s'.lookup r.initial = some i)
    (ht : s'.lookup t = some c) (among : t ∈ ids) : r.Refuses ids s (.arc fault) := by
  have hcases := arcFault?_cases h
  rw [(hs.placed.of_lookup ht).2] at hcases
  rcases hcases with rfl | rfl | rfl
  · obtain ⟨wanted, taken⟩ := (arcFault?_exact hs harcs hi ht).2.1.1 h
    exact .forwardOnly among wanted taken
  · obtain ⟨wanted, taken⟩ := (arcFault?_exact hs harcs hi ht).1.1 h
    exact .regular among wanted taken
  · exact .reassigned

theorem Action.ConnectRun.refuses {gate : Option Gate}
    (h : ConnectRun agree who r u G s (.error e) s')
    (hgate : r.condition.mapM s.gateOf = .ok gate) : r.Refuses (r.admitted gate s) s e := by
  cases h with
  | withdrawn early => exact .early early
  | @refused gate' code i cells new s₁ locks fault held refusal =>
    obtain rfl := Except.ok.inj (hgate.symm.trans held.probed)
    obtain ⟨t, c, among, hlookup, hfault⟩ := held.refuted refusal
    exact refuses_of_arcFault? hfault held.sound held.located.enlarged.arcs held.located.initial
      hlookup among

theorem Linking.refuses {answer : Except Error α} {gate : Option Gate} {t : String}
    (h : Linking agree who r G s answer s') (hs : s.Sound agree) (hn : s.Named)
    (hkind : r.arc.kind = .timeCreated) (hgate : r.condition.mapM s.gateOf = .ok gate)
    (ht : t ∈ r.admitted gate s) (hoccupied : (s.slot? (r.slot .timeCreated t)).isSome = true) :
    ∃ e, answer = .error e ∧ r.Refuses (r.admitted gate s) s e := by
  cases h with
  | unfit fault => exact ⟨_, rfl, .unfit fault⟩
  | @failed _ e _ run => exact ⟨e, rfl, run.refuses hgate⟩
  | done run =>
    obtain ⟨gate', hgate', hanswered⟩ := run.answered hs hn
    obtain rfl := Except.ok.inj (hgate.symm.trans hgate')
    rw [hanswered.fresh hkind t ht] at hoccupied
    cases hoccupied

/-- Times of creation are written once: an operation but a restore leaves those that are there
as they are, and a request that would write another one fails and writes nothing. -/
theorem created_once {s : Session} (h : Arises (fun _ => True) s) (who : Caller) :
    (∀ op : Operation, op.Live → s.store.KeepsCreation (op.after who s).store) ∧
      ∀ {α : Type} (request : Request α) (r : ConnectRequest) (gate : Option Gate) (t : String),
        request.connects? = some r → r.arc.kind = .timeCreated →
          r.condition.mapM s.store.gateOf = .ok gate → t ∈ r.admitted gate s.store →
            (s.store.slot? (r.slot .timeCreated t)).isSome = true →
              ∃ e, (s.ask who request).1 = .error e ∧
                r.Refuses (r.admitted gate s.store) s.store e ∧
                Unwritten who r s.guards s.store (s.ask who request).2.store ∧
                s.store.SameSlots (s.ask who request).2.store := by
  refine ⟨fun op hlive => h.keepsCreation who op hlive, ?_⟩
  intro α request r gate t hr hkind hgate ht hoccupied
  have hs := h.reach.sound
  have hs' : (s.ask who request).2.Sound .slots := Operation.sound_after hs who (.ask request)
  have hgrows : s.store.labels.Grows (s.ask who request).2.store.labels :=
    Operation.grows_after hs h.valid who (.ask request)
  have hn := h.lawful.named
  have hlinking := h.linking who hr
  obtain ⟨e, herror, hrefuses⟩ := hlinking.refuses hs.store hn hkind hgate ht hoccupied
  exact ⟨e, herror, hrefuses, hlinking.unwritten herror hs.store hs.guarded hs'.store.placed,
    hlinking.sameSlots hs.store hs'.store hn hgrows herror⟩

/-- A graph in which it is told when `a` came to know `b`. -/
def dated : Session :=
  (Operation.ask (.connect
    { initial := "a", arc := { relationship := "r", kind := .timeCreated },
      terminals := .one "b" })).after ⟨⟨"m"⟩, 5⟩ (.new {} .new)

theorem arises_dated : Arises (fun _ => True) dated :=
  (Arises.start {} 65535 65535 .refl).step ⟨⟨"m"⟩, 5⟩ (.ask (.connect
    { initial := "a", arc := { relationship := "r", kind := .timeCreated },
      terminals := .one "b" })) trivial

/-- A request to tell it once more. -/
def redated : ConnectRequest :=
  { initial := "a", arc := { relationship := "r", kind := .timeCreated },
    terminals := .one "b" }

/-- It is refused, and the time stays. -/
theorem created_once_dated :
    (∃ a, dated.store.slot? (redated.slot .timeCreated "b") = some a ∧ a.value = .unsigned 5) ∧
      dated.store.KeepsCreation
        ((Operation.ask (.connect redated)).after ⟨⟨"m"⟩, 9⟩ dated).store ∧
      (dated.ask ⟨⟨"m"⟩, 9⟩ (.connect redated)).1 = .error (.arc .creationTimeReassigned) ∧
      redated.Refuses ["b"] dated.store (.arc .creationTimeReassigned) ∧
      Unwritten ⟨⟨"m"⟩, 9⟩ redated dated.guards dated.store
        (dated.ask ⟨⟨"m"⟩, 9⟩ (.connect redated)).2.store := by
  obtain ⟨hslot, herror⟩ :
      (dated.store.slot? (redated.slot .timeCreated "b")).map (·.value) = some (.unsigned 5) ∧
      (dated.ask ⟨⟨"m"⟩, 9⟩ (.connect redated)).1 = .error (.arc .creationTimeReassigned) := by
    set_option maxRecDepth 10000 in
    cbv
  obtain ⟨a, ha, hvalue⟩ := Option.map_eq_some_iff.1 hslot
  have hoccupied : (dated.store.slot? (redated.slot .timeCreated "b")).isSome = true := by
    rw [ha]
    rfl
  have hadmitted : redated.admitted none dated.store = ["b"] := rfl
  obtain ⟨hkeeps, hrefuses⟩ := created_once arises_dated ⟨⟨"m"⟩, 9⟩
  obtain ⟨e, he, hrefused, hunwritten, _⟩ := hrefuses (.connect redated) redated none "b" rfl rfl
    rfl (hadmitted ▸ by simp) hoccupied
  obtain rfl := Except.error.inj (he.symm.trans herror)
  exact ⟨⟨a, ha, hvalue⟩, hkeeps _ rfl, herror, hadmitted ▸ hrefused, hunwritten⟩

end Arcbase
