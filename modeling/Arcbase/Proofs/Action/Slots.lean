import Arcbase.Proofs.Action.Linking
set_option autoImplicit false

/-!
# The slots that a connect writes

A connect that holds its ends lets pass the terminals that its condition admits, which is
told of the graph as it was before the call (`HeldEnds.mem_passing_iff`).  It writes toward
these alone; every other slot is as it was before (`HeldEnds.relinked`), and it counts the
slots that were vacant (`HeldEnds.counted`).  A connect that fails, or has nothing to write,
changes no slot (`ConnectRun.sameSlots`).
-/

namespace Arcbase

namespace ConnectRequest

/-- The slot of a request toward a terminal. -/
def slot (r : ConnectRequest) (kind : ArcKind) (t : String) : SlotName :=
  ⟨r.initial, r.arc.relationship, kind, t⟩

/-- The terminals that the condition of a request admits in a graph. -/
def admitted (r : ConnectRequest) (gate : Option Gate) (s : Store) : List String :=
  r.terminals.ids.filter fun t => gate.all fun g => s.lets g r.initial t

/-- Number of slots of a kind toward some terminals that are vacant. -/
def vacant (r : ConnectRequest) (kind : ArcKind) (s : Store) (ids : List String) : Nat :=
  ids.countP fun t => (s.slot? (r.slot kind t)).isNone

/-- Whether a slot is one of a request's relationship toward one of some terminals. -/
def Covers (r : ConnectRequest) (ids : List String) (n : SlotName) : Prop :=
  n.initial = r.initial ∧ n.relationship = r.arc.relationship ∧ n.terminal ∈ ids

instance (r : ConnectRequest) (ids : List String) (n : SlotName) : Decidable (r.Covers ids n) :=
  inferInstanceAs (Decidable (_ ∧ _))

theorem covers_slot {r : ConnectRequest} {ids : List String} {t : String} (kind : ArcKind)
    (ht : t ∈ ids) : r.Covers ids (r.slot kind t) := ⟨rfl, rfl, ht⟩

end ConnectRequest

namespace Store

variable {agree : Agreement} {s s' s'' : Store} {now : UInt32} {r : ConnectRequest}
  {code : LabelCode} {u : ArcUpdate} {i : CellId} {ids : List String} {passing cells : List CellId}

/-- A request has written toward some terminals; all other slots are as they were. -/
structure Relinked (now : UInt32) (r : ConnectRequest) (code : LabelCode) (u : ArcUpdate)
    (ids : List String) (s s' : Store) : Prop where
  slot : ∀ n, s'.slot? n =
    if r.Covers ids n then r.leaves now code u n.kind (s.slot? n) else s.slot? n
  inward : ∀ n, ¬ (r.Covers ids n ∧ r.Writes n.kind) → s'.inwardSlot? n = s.inwardSlot? n
  mirrored : ∀ n, r.Covers ids n → r.Writes n.kind →
    s'.inwardSlot? n = (s'.slot? n).filter fun a => !a.forwardOnly

theorem Relinked.of_sameSlots {s₁ s₁' : Store} (h : Relinked now r code u ids s₁ s₁')
    (before : s.SameSlots s₁) (after : s₁'.SameSlots s') : Relinked now r code u ids s s' := by
  refine ⟨fun n => ?_, fun n hn => ?_, fun n hc hw => ?_⟩
  · rw [(after n).1, h.slot, (before n).1]
  · rw [(after n).2, h.inward n hn, (before n).2]
  · rw [(after n).2, h.mirrored n hc hw, (after n).1]

theorem sum_gained (s : Store) (r : ConnectRequest) (code : LabelCode) (i : CellId)
    (passing : List CellId) : (passing.map (s.gained r code i)).sum =
      passing.countP (fun t => (s.arcAt? i t code r.arc.kind).isNone) +
        if r.lifespan.isSome ∧ r.arc.kind ≠ .timeExpires then
          passing.countP fun t => (s.arcAt? i t code .timeExpires).isNone else 0 := by
  induction passing with
  | nil => simp
  | cons t rest ih =>
    rw [List.map_cons, List.sum_cons, ih, List.countP_cons, List.countP_cons, gained]
    by_cases hending : r.lifespan.isSome = true ∧ r.arc.kind ≠ .timeExpires
    · simp only [hending, true_and, and_self, if_true, ne_eq, not_false_eq_true]
      omega
    · have hnot : ¬ (r.lifespan.isSome = true ∧ r.arc.kind ≠ .timeExpires ∧
          (s.arcAt? i t code .timeExpires).isNone = true) := fun h => hending ⟨h.1, h.2.1⟩
      rw [if_neg hending, if_neg hending, if_neg hnot]
      omega

theorem lookup_of_sameFrame (h : s.SameFrame s') (id : String) : s'.lookup id = s.lookup id := by
  rw [Store.lookup, h.lookupKey, Store.lookup]
  exact congrArg (Option.filter · _) (funext fun c => by rw [h.id])

/-- Names stand for the same as long as the vertices and the labels are the same. -/
theorem denotes_of_sameFrame (hframe : s.SameFrame s') (hlabels : s'.labels = s.labels)
    (n : SlotName) (i' t' : CellId) (code' : LabelCode) :
    s'.Denotes n i' t' code' ↔ s.Denotes n i' t' code' := by
  have hlookup := lookup_of_sameFrame hframe
  constructor
  · exact fun hn => ⟨hlookup _ ▸ hn.initial, hlookup _ ▸ hn.terminal, hlabels ▸ hn.code⟩
  · exact fun hn => ⟨(hlookup _).trans hn.initial, (hlookup _).trans hn.terminal,
      hlabels ▸ hn.code⟩

section Names

variable (h : Linked i code (r.leaves now code u) r.Writes passing s s') (hs : s.Sound agree)
  (hv : s.labels.relationships.Valid) (hi : s.lookup r.initial = some i)
  (hcode : s.labels.relationships.lookup? r.arc.relationship = some code)
  (hids : ∀ id t, s.lookup id = some t → (t ∈ passing ↔ id ∈ ids))
  (hfound : ∀ id ∈ ids, ∃ t, s.lookup id = some t)

include hs hv hi hcode hids in
/-- A slot is written under its names if it is under its cells. -/
theorem Denotes.covers_iff {n : SlotName} {i' t' : CellId} {code' : LabelCode}
    (hn : s.Denotes n i' t' code') :
    (i = i' ∧ t' ∈ passing ∧ code = code') ↔ r.Covers ids n := by
  rw [hids n.terminal t' hn.terminal]
  constructor
  · rintro ⟨rfl, ht, rfl⟩
    refine ⟨?_, ?_, ht⟩
    · exact (hs.placed.of_lookup hn.initial).2.symm.trans (hs.placed.of_lookup hi).2
    · exact Option.some.inj (((hv _ _).1 hn.code).symm.trans ((hv _ _).1 hcode))
  · rintro ⟨hinitial, hrelationship, ht⟩
    refine ⟨Option.some.inj (hi.symm.trans (hinitial ▸ hn.initial)), ht, ?_⟩
    exact Option.some.inj (hcode.symm.trans (hrelationship ▸ hn.code))

include hi hcode hfound in
theorem denotes_of_covers {n : SlotName} (hc : r.Covers ids n) : ∃ t, s.Denotes n i t code := by
  obtain ⟨t, ht⟩ := hfound _ hc.2.2
  exact ⟨t, hc.1 ▸ hi, ht, hc.2.1 ▸ hcode⟩

include h hs hv hi hcode hids hfound

/-- Changes under cells and codes are changes under names. -/
theorem relinked_of_linked : Relinked now r code u ids s s' := by
  have hnames := denotes_of_sameFrame h.writing.frame h.labels
  have hplace : ∀ {n i' t' code'}, s.Denotes n i' t' code' →
      (i = i' ∧ t' ∈ passing ∧ code = code' ↔ r.Covers ids n) :=
    fun hn => hn.covers_iff hs hv hi hcode hids
  have hcovered : ∀ {n}, r.Covers ids n → ∃ t, s.Denotes n i t code :=
    fun hc => denotes_of_covers hi hcode hfound hc
  have hneither : ∀ {n}, (¬ ∃ i' t' code', s.Denotes n i' t' code') →
      ¬ ∃ i' t' code', s'.Denotes n i' t' code' := by
    rintro n hnone ⟨i', t', code', hn⟩
    exact hnone ⟨i', t', code', (hnames _ _ _ _).1 hn⟩
  refine ⟨fun n => ?_, fun n hnot => ?_, fun n hc hw => ?_⟩
  · by_cases hex : ∃ i' t' code', s.Denotes n i' t' code'
    · obtain ⟨i', t', code', hn⟩ := hex
      rw [((hnames _ _ _ _).2 hn).slot?, hn.slot?,
        h.arcAt i' t' code' n.kind (hs.placed.of_lookup hn.terminal).1]
      by_cases hc : r.Covers ids n
      · obtain ⟨rfl, ht, rfl⟩ := (hplace hn).2 hc
        rw [if_pos ⟨rfl, ht, rfl⟩, if_pos hc]
      · rw [if_neg fun hp => hc ((hplace hn).1 hp), if_neg hc]
    · rw [slot?_of_not_denotes (hneither hex), slot?_of_not_denotes hex,
        if_neg fun hc => hex ⟨i, _, code, (hcovered hc).choose_spec⟩]
  · by_cases hex : ∃ i' t' code', s.Denotes n i' t' code'
    · obtain ⟨i', t', code', hn⟩ := hex
      rw [((hnames _ _ _ _).2 hn).inwardSlot?, hn.inwardSlot?]
      refine h.inwardAt i' t' code' n.kind (hs.placed.of_lookup hn.initial).1
        (hs.placed.of_lookup hn.terminal).1 fun hw => hnot ?_
      exact ⟨(hplace hn).1 ⟨hw.1, hw.2.1, hw.2.2.1⟩, hw.2.2.2⟩
    · rw [inwardSlot?_of_not_denotes (hneither hex), inwardSlot?_of_not_denotes hex]
  · obtain ⟨t, hn⟩ := hcovered hc
    have hn' := (hnames _ _ _ _).2 hn
    rw [hn'.inwardSlot?, hn'.slot?]
    exact h.mirrored t ((hplace hn).2 hc).2.1 n.kind hw

end Names

end Store

namespace Action

open Store

variable {agree : Agreement} {s s' s₁ s₂ : Store} {G new : List Guard} {who : Caller}
  {r : ConnectRequest} {u : ArcUpdate} {gate : Option Gate} {code : LabelCode} {i : CellId}
  {cells passing : List CellId} {locks : LockTable} {answer : Nat × Option ArcValue}

/-! ## Holding the ends -/

theorem GivenAll.writer {W : CellId → Prop} (h : GivenAll W who .writable cells new) :
    ∀ g ∈ new, g.hold = .writer := fun g hg => (h.each g hg).writing rfl

theorem admitted_eq_ok (h : admitted s r.arc code gate i cells = .ok passing) :
    passing = cells.filter fun t => gate.all fun g => s.gatePasses g i t := by
  simp only [admitted] at h
  split at h
  · cases h
  · exact (Except.ok.inj h).symm

/-- Nothing stands against an arc toward a terminal that is let pass. -/
theorem arcFault?_of_admitted {request : ArcRequest}
    (h : admitted s request code gate i cells = .ok passing) {t : CellId} (ht : t ∈ passing) :
    s.arcFault? request code i t = none := by
  simp only [admitted] at h
  split at h
  · cases h
  next hnone => exact List.findSome?_eq_none_iff.1 hnone t (Except.ok.inj h ▸ ht)

/-- A creation time is written once only. -/
theorem vacant_of_arcFault? {request : ArcRequest} {t : CellId}
    (hfault : s.arcFault? request code i t = none) (hkind : request.kind = .timeCreated) :
    s.arcAt? i t code .timeCreated = none := by
  by_contra hoccupied
  have hreassigned : request.kind = .timeCreated ∧
      ((s.data i).out.get? (s.cell t).key code .timeCreated).isSome = true :=
    ⟨hkind, Option.isSome_iff_ne_none.2 hoccupied⟩
  simp only [arcFault?, if_pos hreassigned] at hfault
  split at hfault
  · cases hfault
  · split at hfault <;> cases hfault

/-- The store in which a connect writes its arcs: its initial has become real. -/
def readied (who : Caller) (i : CellId) (s₁ : Store) (locks : LockTable) : Store :=
  ({ s₁ with locks } : Store).modifyData i (·.promote who.now)

section HeldEnds

variable (held : HeldEnds agree who r gate code G s i cells new s₁ locks)
include held

theorem HeldEnds.sound : Sound agree { s₁ with locks } :=
  held.located.enlarged.sound.withLocks locks

theorem HeldEnds.promoted : (readied who i s₁ locks).Sound agree ∧
    SameArcs { s₁ with locks } (readied who i s₁ locks) ∧
      SameFrame s₁ (readied who i s₁ locks) := by
  have hkeeps := keepsArcs_promote who.now
  refine ⟨(Step.attributes (W := fun _ => True) trivial hkeeps).sound held.sound,
    sameArcs_modifyData hkeeps, ?_⟩
  exact (sameFrame_locks s₁ locks).trans (hkeeps.sameFrame _ i)

/-- A terminal is let pass if the condition admits it in the graph as it was. -/
theorem HeldEnds.gatePasses {id : String} {t : CellId} (ht : s₁.lookup id = some t) :
    (gate.all fun g => Store.gatePasses { s₁ with locks } g i t) =
      gate.all fun g => s.lets g r.initial id := by
  refine congrArg (gate.all ·) (funext fun g => ?_)
  exact gatePasses_eq_lets held.sound held.located.enlarged.arcs held.located.initial ht g

theorem HeldEnds.mem_passing_iff
    (passes : Action.admitted { s₁ with locks } r.arc code gate i cells = .ok passing)
    {id : String} {t : CellId} (ht : s₁.lookup id = some t) :
    t ∈ passing ↔ id ∈ r.admitted gate s := by
  rw [admitted_eq_ok passes, ConnectRequest.admitted, List.mem_filter, List.mem_filter,
    held.gatePasses ht]
  refine and_congr_left fun _ => ⟨fun hm => ?_, fun hid => ?_⟩
  · obtain ⟨id', hid', hlookup⟩ := held.located.id_of_mem hm
    have hplaced := held.located.enlarged.sound.placed
    exact (hplaced.of_lookup hlookup).2.symm.trans (hplaced.of_lookup ht).2 ▸ hid'
  · obtain ⟨t', ht', hlookup⟩ := held.located.terminal hid
    exact Option.some.inj (hlookup.symm.trans ht) ▸ ht'

/-- What refuses a connect stands against one of the terminals that it lets pass. -/
theorem HeldEnds.refuted {fault : ArcError}
    (refusal : Action.admitted { s₁ with locks } r.arc code gate i cells = .error fault) :
    ∃ id t, id ∈ r.admitted gate s ∧ s₁.lookup id = some t ∧
      Store.arcFault? { s₁ with locks } r.arc code i t = some fault := by
  simp only [Action.admitted] at refusal
  split at refusal
  next fault' hfound =>
    obtain rfl := Except.error.inj refusal
    obtain ⟨t, hm, hfault⟩ := List.exists_of_findSome?_eq_some hfound
    obtain ⟨hcell, hpasses⟩ := List.mem_filter.1 hm
    obtain ⟨id, hid, hlookup⟩ := held.located.id_of_mem hcell
    exact ⟨id, t, List.mem_filter.2 ⟨hid, (held.gatePasses hlookup).symm.trans hpasses⟩, hlookup,
      hfault⟩
  next => cases refusal

variable (hs : s.Sound agree)
include hs

theorem HeldEnds.sameSlots (hn : s.Named) : s.SameSlots { s₁ with locks } := by
  have hlabelled : Sound agree { s with labels := s₁.labels } := hs.withLabels _
  have hsound := held.located.enlarged.sound
  have hlocks : SameArcs s₁ { s₁ with locks } := sameArcs_of_cells rfl rfl
  exact ((sameSlots_labels hs hn held.grown).trans
    ((held.located.sameArcs hlabelled).sameSlots hlabelled hsound)).trans
      (hlocks.sameSlots hsound held.sound)

theorem HeldEnds.sameSlots_promoted (hn : s.Named) : s.SameSlots (readied who i s₁ locks) :=
  (held.sameSlots hs hn).trans (held.promoted.2.1.sameSlots held.sound held.promoted.1)

/-- What is in a slot of the request. -/
theorem HeldEnds.arcAt? (hn : s.Named) {id : String} {t : CellId} (ht : s₁.lookup id = some t)
    (kind : ArcKind) :
    (readied who i s₁ locks).arcAt? i t code kind = s.slot? (r.slot kind id) := by
  obtain ⟨_, _, hframe⟩ := held.promoted
  have hnames : (readied who i s₁ locks).Denotes (r.slot kind id) i t code :=
    ⟨(lookup_of_sameFrame hframe _).trans held.located.initial,
      (lookup_of_sameFrame hframe _).trans ht, held.coded⟩
  rw [← (held.sameSlots_promoted hs hn _).1, hnames.slot?]
  rfl

end HeldEnds

/-! ## Writing -/

section Writing

variable (held : HeldEnds agree who r gate code G s i cells new s₁ locks)
  (passes : Action.admitted { s₁ with locks } r.arc code gate i cells = .ok passing)
  (writes : connectAll who.now r code u i passing (0, none) (readied who i s₁ locks) =
    (answer, s₂))
include held passes

theorem HeldEnds.live_passing : passing.Nodup ∧ ∀ t ∈ passing, (readied who i s₁ locks).Live t := by
  refine ⟨?_, fun t ht => ?_⟩
  · rw [admitted_eq_ok passes]
    exact (held.located.nodup held.distinct).filter _
  · exact held.promoted.2.2.live_iff.2 (held.located.live_of_mem (admitted_subset passes t ht))

/-- What is counted among the terminals is counted among their cells. -/
theorem HeldEnds.countP_admitted {p : String → Bool} {q : CellId → Bool}
    (hpq : ∀ id t, s₁.lookup id = some t → p id = q t) :
    (r.admitted gate s).countP p = passing.countP q := by
  have hcount : ∀ {ids : List String} {cells : List CellId},
      List.Forall₂ (fun id t => s₁.lookup id = some t) ids cells →
        (ids.filter fun t => gate.all fun g => s.lets g r.initial t).countP p =
          (cells.filter fun t => gate.all fun g =>
            Store.gatePasses { s₁ with locks } g i t).countP q := by
    intro ids cells hfound
    rw [List.countP_filter, List.countP_filter]
    induction hfound with
    | nil => rfl
    | cons ht _ ih => rw [List.countP_cons, List.countP_cons, ih, hpq _ _ ht, held.gatePasses ht]
  rw [ConnectRequest.admitted, admitted_eq_ok passes]
  exact hcount held.located.terminals

include writes

theorem HeldEnds.linked :
    Linked i code (r.leaves who.now code u) r.Writes passing (readied who i s₁ locks) s₂ := by
  obtain ⟨hnodup, hlive⟩ := held.live_passing passes
  have hlinked := linked_connectAll held.promoted.1
    (held.promoted.2.2.live_iff.2 held.located.live_initial) hlive hnodup who.now r code u (0, none)
  rwa [writes] at hlinked

theorem HeldEnds.written : s₂.Sound agree ∧ s₂.Guarded (new ++ G) := by
  have hlinked := held.linked passes writes
  refine ⟨Steps.sound hlinked.writing.steps held.promoted.1, ?_⟩
  have hframe : SameFrame { s₁ with locks } (readied who i s₁ locks) :=
    (keepsArcs_promote who.now).sameFrame _ i
  have hguarded : (readied who i s₁ locks).Guarded (new ++ G) :=
    held.guarded.transfer hframe.extends held.guarded.accounts fun _ => id
  exact Guarded.steps hguarded hlinked.writing.steps hlinked.writing.locks

variable (hs : s.Sound agree) (hn : s.Named)
include hs hn

theorem HeldEnds.relinked (hv : s₁.labels.relationships.Valid) :
    Relinked who.now r code u (r.admitted gate s) s (s₂.dropAll new) := by
  obtain ⟨hsound, _, hframe⟩ := held.promoted
  obtain ⟨hs₂, hg₂⟩ := held.written passes writes
  have hi := (lookup_of_sameFrame hframe _).trans held.located.initial
  have hrelinked : Relinked who.now r code u (r.admitted gate s) (readied who i s₁ locks) s₂ := by
    refine relinked_of_linked (held.linked passes writes) hsound hv hi held.coded
      (fun id t ht => ?_) fun id hid => ?_
    · exact held.mem_passing_iff passes ((lookup_of_sameFrame hframe id).symm.trans ht)
    · obtain ⟨t, _, ht⟩ := held.located.terminal (List.mem_filter.1 hid).1
      exact ⟨t, (lookup_of_sameFrame hframe id).trans ht⟩
  exact hrelinked.of_sameSlots (held.sameSlots_promoted hs hn)
    ((sameArcs_dropAll hs₂ hg₂ held.given.writer).sameSlots hs₂ (sound_dropAll hs₂ new))

/-- New arcs are counted where a slot was vacant, and so is the size of the graph. -/
theorem HeldEnds.counted : answer.1 = r.vacant r.arc.kind s (r.admitted gate s) ∧
    (s₂.dropAll new).size = s.size + (answer.1 +
      if r.lifespan.isSome ∧ r.arc.kind ≠ .timeExpires then
        r.vacant .timeExpires s (r.admitted gate s) else 0) ∧
      (r.admitted gate s ≠ [] → answer.2.isSome = true) := by
  obtain ⟨hnodup, hlive⟩ := held.live_passing passes
  have hi := held.promoted.2.2.live_iff.2 held.located.live_initial
  obtain ⟨hcount, hvalue, hsize⟩ :=
    count_connectAll held.promoted.1 hi hlive hnodup who.now r code u (0, none)
  rw [writes] at hcount hvalue hsize
  have hvacant : ∀ kind, r.vacant kind s (r.admitted gate s) =
      passing.countP fun t => ((readied who i s₁ locks).arcAt? i t code kind).isNone :=
    fun kind => held.countP_admitted passes fun id t ht => by rw [held.arcAt? hs hn ht]
  have hcount' : answer.1 = r.vacant r.arc.kind s (r.admitted gate s) := by
    rw [hvacant]
    exact hcount.trans (Nat.zero_add _)
  refine ⟨hcount', ?_, fun hne => hvalue ?_⟩
  · rw [size_dropAll, hcount', hvacant, hvacant, ← sum_gained]
    exact hsize.trans (congrArg (· + _) held.located.size)
  · rintro rfl
    have hlength := held.countP_admitted passes (p := fun _ => true) (q := fun _ => true)
      fun _ _ _ => rfl
    rw [List.countP_true, List.countP_nil] at hlength
    exact hne (List.length_eq_zero_iff.1 hlength)

omit writes in
/-- Where a creation time is written there was none. -/
theorem HeldEnds.fresh (hkind : r.arc.kind = .timeCreated) :
    ∀ t ∈ r.admitted gate s, s.slot? (r.slot .timeCreated t) = none := by
  intro id hid
  obtain ⟨t, _, ht⟩ := held.located.terminal (List.mem_filter.1 hid).1
  have hnames : Denotes { s₁ with locks } (r.slot .timeCreated id) i t code :=
    ⟨held.located.initial, ht, held.coded⟩
  rw [← (held.sameSlots hs hn _).1, hnames.slot?]
  have hpassing := (held.mem_passing_iff passes ht).2 hid
  exact vacant_of_arcFault? (arcFault?_of_admitted passes hpassing) hkind

end Writing

/-! ## The ways in which a connect may go -/

theorem ConnectRun.sameSlots {e : Error} (h : ConnectRun agree who r u G s (.error e) s')
    (hs : s.Sound agree) (hs' : s'.Sound agree) (hn : s.Named)
    (grows : s.labels.Grows s'.labels) : s.SameSlots s' := by
  cases h with
  | withdrawn _ grown bare =>
    have hlabelled : Sound agree { s with labels := s'.labels } := hs.withLabels _
    have harcs := grown.sameArcs hs hs' fun vertex hm => bare vertex hm ▸ bare_new .real who.now
    exact (sameSlots_labels hs hn grows).trans (harcs.sameSlots hlabelled hs')
  | refused held _ =>
    exact (held.sameSlots hs hn).trans
      ((sameArcs_dropAll held.sound held.guarded held.given.writer).sameSlots held.sound hs')

/-- What an answer tells of the slots of a graph. -/
structure Answered (now : UInt32) (r : ConnectRequest) (u : ArcUpdate) (ids : List String)
    (answer : Nat × Option ArcValue) (s s' : Store) : Prop where
  relinked : ∃ code, Relinked now r code u ids s s'
  count : answer.1 = r.vacant r.arc.kind s ids
  size : s'.size = s.size + (answer.1 +
    if r.lifespan.isSome ∧ r.arc.kind ≠ .timeExpires then r.vacant .timeExpires s ids else 0)
  value : ids ≠ [] → answer.2.isSome = true
  fresh : r.arc.kind = .timeCreated → ∀ t ∈ ids, s.slot? (r.slot .timeCreated t) = none

theorem ConnectRun.answered (h : ConnectRun agree who r u G s (.ok answer) s')
    (hs : s.Sound agree) (hn : s.Named) : ∃ gate, r.condition.mapM s.gateOf = .ok gate ∧
      Answered who.now r u (r.admitted gate s) answer s s' := by
  cases h with
  | @idle gate probed unaimed =>
    have hnone : r.admitted gate s = [] := by rw [ConnectRequest.admitted, unaimed, List.filter_nil]
    refine ⟨gate, probed, ⟨0, fun n => ?_, fun _ _ => rfl, fun n hc => ?_⟩, ?_, ?_, ?_, ?_⟩
    · rw [if_neg]
      rintro ⟨_, _, hm⟩
      rw [hnone] at hm
      exact List.not_mem_nil hm
    · rw [hnone] at hc
      exact absurd hc.2.2 List.not_mem_nil
    · rw [hnone]
      rfl
    · rw [hnone]
      simp [ConnectRequest.vacant]
    · exact fun hne => absurd hnone hne
    · exact fun _ t ht => absurd (hnone ▸ ht) List.not_mem_nil
  | @written gate code i cells passing new s₁ s₂ locks _ held passes writes =>
    obtain ⟨hcount, hsize, hvalue⟩ := held.counted passes writes hs hn
    exact ⟨gate, held.probed, ⟨code, held.relinked passes writes hs hn (held.grown.valid hn.valid)⟩,
      hcount, hsize, hvalue, held.fresh passes hs hn⟩

end Action

end Arcbase
