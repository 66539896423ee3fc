import Arcbase.Proofs.Session.Failing
import Arcbase.Proofs.Store.Touching
set_option autoImplicit false

/-!
# What a connect makes of a graph

A connect serves those of its terminals toward which its condition holds in the graph as it was
(`Lets`).  What it makes of the slots, of the schedule and of the vertices is told terminal by
terminal, under the identifiers (`Served`), so that it can be put together for several connects.
-/

namespace Arcbase

open Arcbase.Action Store

/-! ## Conditions under names -/

namespace Store

variable {agree : Agreement} {s s' : Store} {p : Probe} {condition : ArcCondition} {a b : String}

/-- An arc that a probe accepts is in a slot from one vertex toward another. -/
def Joins (s : Store) (p : Probe) (a b : String) : Prop :=
  ∃ n x, n.initial = a ∧ n.terminal = b ∧ s.slot? n = some x ∧
    p.accepts ⟨n.relationship, n.kind, x.value, x.forwardOnly⟩ = true

/-- A condition holds between two vertices. -/
def Meets (s : Store) (condition : ArcCondition) (a b : String) : Prop :=
  (condition.probe.direction.includesOut = true ∧ s.Joins condition.probe a b ∨
    condition.probe.direction.includesIn = true ∧ s.Joins condition.probe b a) ↔
      condition.negate = false

theorem joins_congr (h : ∀ n, n.initial = a → n.terminal = b → s'.slot? n = s.slot? n) :
    s'.Joins p a b ↔ s.Joins p a b := by
  refine exists_congr fun n => exists_congr fun x => and_congr_right fun ha =>
    and_congr_right fun hb => ?_
  rw [h n ha hb]

/-- A condition depends on nothing but the slots between the two vertices. -/
theorem meets_congr (hout : ∀ n, n.initial = a → n.terminal = b → s'.slot? n = s.slot? n)
    (hin : ∀ n, n.initial = b → n.terminal = a → s'.slot? n = s.slot? n) :
    s'.Meets condition a b ↔ s.Meets condition a b := by
  rw [Meets, Meets, joins_congr hout, joins_congr hin]

end Store

/-- The condition of a request, if it has one, holds toward a terminal. -/
def ConnectRequest.Lets (r : ConnectRequest) (s : Store) (t : String) : Prop :=
  ∀ condition ∈ r.condition, s.Meets condition r.initial t

namespace Store

variable {agree : Agreement} {s : Store} {p : Probe} {condition : ArcCondition} {a b : String}

/-- No other vertex has the key of an identifier. -/
def Owns (s : Store) (a : String) : Prop :=
  ∀ c, s.lookupKey (.of a) = some c → (s.cell c).id = a

theorem Owns.eq_of_key (h : s.Owns a) {id : String} {c : CellId} (hc : s.lookup id = some c)
    (hkey : VertexKey.of id = .of a) : id = a := by
  obtain ⟨hfound, hid⟩ := Option.filter_eq_some_iff.1 hc
  exact (by simpa using hid : (s.cell c).id = id).symm.trans (h c (hkey ▸ hfound))

section Gates

variable (hs : s.Sound agree) (hn : s.Named) (ha : s.Owns a) (hb : s.Owns b)
include hs hn ha hb

/-- The arcs that a filter accepts are those that its probe accepts under the labels. -/
theorem any_arcs_iff_joins {f : ArcFilter} (hf : s.filterOf p = .ok f) :
    (s.arcs.any fun q => q.initial == .of a && q.terminal == .of b && f.test q.arc) = true ↔
      s.Joins p a b := by
  have htest : ∀ {n x}, s.slot? n = some x →
      f.test x = p.accepts ⟨n.relationship, n.kind, x.value, x.forwardOnly⟩ := by
    intro n x hx
    obtain ⟨hlabel, hkind⟩ := hn.decode_of_slot? hx
    rw [test_of_ofProbe hf, p.selects_eq_accepts hn.valid ⟨_, hlabel⟩, StoredArc.named,
      Labels.relationshipLabel, hlabel, hkind]
    rfl
  simp only [List.any_eq_true, Bool.and_eq_true, beq_iff_eq]
  constructor
  · rintro ⟨q, hq, ⟨hinitial, hterminal⟩, haccepted⟩
    obtain ⟨n, hx, hi, ht⟩ := exists_slot?_of_mem_arcs hs hn hq
    obtain ⟨c, d, _, hnames⟩ := denotes_of_slot? hx
    exact ⟨n, q.arc, ha.eq_of_key hnames.initial (hi.symm.trans hinitial),
      hb.eq_of_key hnames.terminal (ht.symm.trans hterminal), hx, (htest hx).symm.trans haccepted⟩
  · rintro ⟨n, x, rfl, rfl, hx, haccepts⟩
    exact ⟨_, mem_arcs_of_slot? hs hx, ⟨rfl, rfl⟩, (htest hx).trans haccepts⟩

theorem lets_iff_meets {g : Gate} (hg : s.gateOf condition = .ok g) :
    s.lets g a b = true ↔ s.Meets condition a b := by
  rw [gateOf] at hg
  cases hf : s.filterOf condition.probe with
  | error e =>
    rw [hf] at hg
    cases hg
  | ok f =>
    rw [hf] at hg
    obtain rfl := Except.ok.inj hg
    have hne : ∀ found negate : Bool,
        (found != negate) = true ↔ (found = true ↔ negate = false) := by decide
    rw [Meets, ← any_arcs_iff_joins hs hn ha hb hf, ← any_arcs_iff_joins hs hn hb ha hf, lets]
    rw [hne, Bool.or_eq_true, Bool.and_eq_true, Bool.and_eq_true]

end Gates

end Store

section HeldEnds

variable {agree : Agreement} {who : Caller} {r : ConnectRequest} {gate : Option Gate}
  {code : LabelCode} {G new : List Guard} {s s₁ : Store} {i : CellId} {cells : List CellId}
  {locks : LockTable} {t : String} (held : HeldEnds agree who r gate code G s i cells new s₁ locks)
  (hs : s.Sound agree)
include held hs

theorem Action.HeldEnds.owns {b : String} {d : CellId} (hb : s₁.lookup b = some d) :
    s.Owns b := by
  intro c hc
  have hlive := hs.placed.live_of_lookup hc
  have hp₁ := held.located.enlarged.sound.placed
  have hsame : s₁.cell c = s.cell c := held.located.cell hlive.1
  have hkey : s₁.keyOf c = s₁.keyOf d := by
    rw [hp₁.keyOf_of_lookup hb, keyOf, hsame]
    exact hs.placed.key_of_lookup hc
  obtain rfl := hp₁.eq_of_key (held.located.enlarged.live c hlive) (hp₁.of_lookup hb).1 hkey
  exact hsame ▸ (hp₁.of_lookup hb).2

theorem Action.HeldEnds.owns_terminal (ht : t ∈ r.terminals.ids) : s.Owns t := by
  obtain ⟨d, _, hd⟩ := held.located.terminal ht
  exact held.owns hs hd

/-- A connect lets the terminals pass toward which its condition held before. -/
theorem Action.HeldEnds.mem_admitted_iff (hn : s.Named) :
    t ∈ r.admitted gate s ↔ t ∈ r.terminals.ids ∧ r.Lets s t := by
  rw [ConnectRequest.admitted, List.mem_filter, ConnectRequest.Lets]
  refine and_congr_right fun ht => ?_
  have hprobed := held.probed
  cases hcondition : r.condition with
  | none =>
    rw [hcondition] at hprobed
    obtain rfl : none = gate := Except.ok.inj hprobed
    exact iff_of_true rfl fun condition hm => absurd hm (Option.not_mem_none condition)
  | some condition =>
    rw [hcondition] at hprobed
    cases hg : s.gateOf condition with
    | error e =>
      simp only [Option.mapM, hg] at hprobed
      cases hprobed
    | ok g =>
      simp only [Option.mapM, hg] at hprobed
      obtain rfl : some g = gate := Except.ok.inj hprobed
      have hinitial := held.owns hs held.located.initial
      simp [lets_iff_meets hs hn hinitial (held.owns_terminal hs ht) hg]

end HeldEnds

/-! ## What is left once the ends are given up -/

theorem VertexSnapshot.manifestation_promote (v : VertexSnapshot) (now : UInt32) :
    (v.promote now).manifestation = .real := by
  rw [promote]
  cases hv : v.manifestation with
  | real => rw [if_neg Manifestation.noConfusion, hv]
  | virtual => rw [if_pos rfl]

section Written

variable {agree : Agreement} {who : Caller} {r : ConnectRequest} {u : ArcUpdate}
  {gate : Option Gate} {code : LabelCode} {G new : List Guard} {s s₁ s₂ : Store} {i c : CellId}
  {cells passing : List CellId} {locks : LockTable} {answer : Nat × Option ArcValue} {id : String}

theorem Store.vertexSnapshot_readied (hi : i < s₁.cells.size) :
    (readied who i s₁ locks).vertexSnapshot c =
      if i = c then (s₁.vertexSnapshot c).promote who.now else s₁.vertexSnapshot c := by
  rw [readied, vertexSnapshot_modifyData]
  by_cases hc : i = c
  · rw [if_pos ⟨hc, hi⟩, if_pos hc, VertexData.listed_promote]
    rfl
  · rw [if_neg fun h => hc h.1, if_neg hc]
    rfl

variable (held : HeldEnds agree who r gate code G s i cells new s₁ locks)
  (passes : Action.admitted { s₁ with locks } r.arc code gate i cells = .ok passing)
  (writes : connectAll who.now r code u i passing (0, none) (readied who i s₁ locks) =
    (answer, s₂))
include held passes writes

theorem Action.HeldEnds.frame_written : s₁.SameFrame s₂ :=
  held.promoted.2.2.trans (held.linked passes writes).writing.frame

theorem Action.HeldEnds.vertexSnapshot_written (c : CellId) : s₂.vertexSnapshot c =
    if c ∈ passing ∨ c = i ∧ passing ≠ [] then
      ((readied who i s₁ locks).vertexSnapshot c).touch who.now
    else (readied who i s₁ locks).vertexSnapshot c := by
  have hi := held.promoted.2.2.live_iff.2 held.located.live_initial
  have hlisted := vertexSnapshot_connectAll hi.1
    (fun t ht => ((held.live_passing passes).2 t ht).1) who.now r code u (0, none) c
  rwa [writes] at hlisted

/-- A vertex that is neither the initial nor served is not written. -/
theorem Action.HeldEnds.cell_written (hc : s₁.Live c) (hci : c ≠ i) (hct : c ∉ passing) :
    s₂.cell c = s₁.cell c := by
  have hframe := held.promoted.2.2
  have hlive : ∀ {c}, (readied who i s₁ locks).Live c ↔ s₁.Live c := hframe.live_iff
  have hcell := cell_connectAll (hlive.2 held.located.live_initial) (held.live_passing passes).2
    (hlive.2 hc).1 hci hct who.now r code u (0, none)
  rw [writes, readied, cell_modifyData, if_neg fun h => hci h.1.symm] at hcell
  exact hcell

/-- The initial is real once it is written. -/
theorem Action.HeldEnds.not_dropped_initial : ¬ Dropped new G s₂ i := by
  intro hdropped
  have hlisted := held.vertexSnapshot_written passes writes i
  rw [vertexSnapshot_readied held.located.live_initial.1, if_pos rfl] at hlisted
  have hreal : (s₂.vertexSnapshot i).manifestation = .real := by
    rw [hlisted]
    split <;> exact VertexSnapshot.manifestation_promote ..
  exact nomatch hdropped.manifestation.symm.trans hreal

/-- A terminal that is served has an arc. -/
theorem Action.HeldEnds.not_dropped_passing (hc : c ∈ passing) : ¬ Dropped new G s₂ c := by
  intro hdropped
  have hframe := (held.linked passes writes).writing.frame
  have hlive := (held.live_passing passes).2 c hc
  have hs₂ := (held.written passes writes).1
  have hi : s₂.Live i := (held.frame_written passes writes).live_iff.2 held.located.live_initial
  have hc₂ : s₂.Live c := hframe.live_iff.2 hlive
  have hbare := (hs₂.paired.bare_iff hc₂).1 hdropped.degree
  have hnone := (hs₂.paired.arcsTo_of_bare hc₂ hbare hs₂.placed hi).1
  have hvacant : s₂.arcAt? i c code r.arc.kind = none := get?_of_arcsTo_eq_nil hnone ..
  rw [(held.linked passes writes).arcAt i c code r.arc.kind hlive, if_pos ⟨rfl, hc, rfl⟩] at hvacant
  by_cases hkind : r.arc.kind = .timeExpires ∧ r.lifespan.isSome = true
  · obtain ⟨lifespan, hlifespan⟩ := Option.isSome_iff_exists.1 hkind.2
    obtain ⟨a, ha, _⟩ := leaves_ending who.now code u
      ((readied who i s₁ locks).arcAt? i c code .timeExpires) hlifespan
    rw [hkind.1] at hvacant
    exact nomatch ha.symm.trans hvacant
  · exact nomatch (leaves_own hkind).symm.trans hvacant

/-- What is registered once the ends are given up was so before, and is as it was. -/
theorem Action.HeldEnds.lookup_dropAll_iff : (s₂.dropAll new).lookup id = some c ↔
    s₁.lookup id = some c ∧ ¬ Dropped new G s₂ c := by
  obtain ⟨hs₂, hg₂⟩ := held.written passes writes
  have hframe := held.frame_written passes writes
  have hplaced := (sound_dropAll hs₂ new).placed
  have hiff := live_dropAll_iff (c := c) hg₂ held.given.writer
  rw [← lookup_of_sameFrame hframe]
  constructor
  · intro hc
    obtain ⟨hlive, rfl⟩ := hplaced.of_lookup hc
    obtain ⟨hlive₂, hkept⟩ := hiff.1 hlive
    rw [cell_dropAll hg₂ held.given.writer hlive]
    exact ⟨hs₂.placed.lookup_of_live hlive₂, hkept⟩
  · rintro ⟨hc, hkept⟩
    obtain ⟨hlive₂, rfl⟩ := hs₂.placed.of_lookup hc
    have hlive := hiff.2 ⟨hlive₂, hkept⟩
    rw [← cell_dropAll hg₂ held.given.writer hlive]
    exact hplaced.lookup_of_live hlive

theorem Action.HeldEnds.cell_dropAll (hc : (s₂.dropAll new).lookup id = some c) :
    (s₂.dropAll new).cell c = s₂.cell c := by
  obtain ⟨hs₂, hg₂⟩ := held.written passes writes
  exact Store.cell_dropAll hg₂ held.given.writer
    ((sound_dropAll hs₂ new).placed.of_lookup hc).1

end Written

/-! ## What a connect has made of a graph -/

/-- The initial of a request as a connect leaves it, whether it was there or not. -/
def VertexSnapshot.initial (now : UInt32) (id : String) (linked : Bool)
    (old : Option VertexSnapshot) : VertexSnapshot :=
  let v := old.elim { id, created := now, modified := now } (·.promote now)
  if linked then v.touch now else v

/-- When the relationship of a request toward a terminal ends, if the request writes that. -/
def ConnectRequest.ends? (r : ConnectRequest) (s : Store) (t : String) : Option UInt32 :=
  if r.Writes .timeExpires then (s.slot? (r.slot .timeExpires t)).bind (·.value.unsigned?) else none

/-- A virtual vertex without arcs that nobody holds is registered under an identifier. -/
def Strays (G : List Guard) (s : Store) (id : String) : Prop :=
  ∃ c, s.lookup id = some c ∧ Stray G s c

/-- A request has been carried out toward those of some terminals that its condition lets pass,
and `n` of its arcs are new. -/
structure Served (who : Caller) (r : ConnectRequest) (u : ArcUpdate) (G : List Guard)
    (ids served : List String) (n : Nat) (s s' : Store) : Prop where
  distinct : served.Nodup
  chosen : ∀ t, t ∈ served ↔ t ∈ ids ∧ r.Lets s t
  written : ∃ code, s.labels.encodeRelationship r.arc.relationship = (.ok code, s'.labels) ∧
    Relinked who.now r code u served s s'
  count : n = r.vacant r.arc.kind s served
  size : s'.size = s.size + (n +
    if r.lifespan.isSome ∧ r.arc.kind ≠ .timeExpires then r.vacant .timeExpires s served else 0)
  scheduled : ∀ t ∈ served,
    s'.schedule.time? (r.span t) = (r.ends? s' t).or (s.schedule.time? (r.span t))
  unscheduled : ∀ item, (∀ t ∈ served, item ≠ r.span t) →
    s'.schedule.time? item = s.schedule.time? item
  initial : s'.vertex? r.initial =
    some (.initial who.now r.initial (!served.isEmpty) (s.vertex? r.initial))
  terminal : ∀ t ∈ served, s'.vertex? t = (s.vertex? t).map (·.touch who.now)
  /-- A terminal that is not served goes if it strays; all other vertices are as they were. -/
  kept : ∀ id, id ≠ r.initial → id ∉ served → ¬ (id ∈ ids ∧ Strays G s id) →
    s'.lookup id = s.lookup id ∧ ∀ c, s.lookup id = some c → s'.cell c = s.cell c
  gone : ∀ id ∈ ids, id ∉ served → Strays G s id → s'.lookup id = none
  came : ∃ c, s'.lookup r.initial = some c ∧
    (s.lookup r.initial = some c ∨ s.lookup r.initial = none ∧ s.cells.size ≤ c)
  config : s'.config = s.config

theorem Labels.types_encodeRelationship (l : Labels) (label : String) :
    (l.encodeRelationship label).2.types = l.types := by
  cases l
  rfl

section Serving

variable {agree : Agreement} {who : Caller} {r : ConnectRequest} {u : ArcUpdate}
  {gate : Option Gate} {code : LabelCode} {G new : List Guard} {s s₁ s₂ : Store} {i c : CellId}
  {cells passing : List CellId} {locks : LockTable} {answer : Nat × Option ArcValue} {id : String}

section Before

variable (held : HeldEnds agree who r gate code G s i cells new s₁ locks) (hs : s.Sound agree)
include held hs

/-- What was there is found, as it was. -/
theorem Action.HeldEnds.lookup_before (hc : s.lookup id = some c) :
    s₁.lookup id = some c ∧ s₁.cell c = s.cell c := by
  have hlabelled : Sound agree { s with labels := s₁.labels } := hs.withLabels _
  exact ⟨held.located.enlarged.lookup hlabelled.placed hc,
    held.located.cell (hs.placed.of_lookup hc).1.1⟩

theorem Action.HeldEnds.vertexSnapshot_before (hc : s.lookup id = some c) :
    s₁.vertexSnapshot c = s.vertexSnapshot c := by
  refine vertexSnapshot_of_cell (held.lookup_before hs hc).2 ?_
  have htypes := Labels.types_encodeRelationship s.labels r.arc.relationship
  rwa [held.encoded] at htypes

/-- If all terminals were there, all that may have come is the initial. -/
theorem Action.HeldEnds.come_initial (hpresent : ∀ t ∈ r.terminals.ids, ∃ c, s.lookup t = some c)
    (hc : s₁.lookup id = some c) (hnew : s.lookup id = none) :
    id = r.initial ∧ s.cells.size ≤ c ∧ s₁.cell c = .new r.initial .real who.now := by
  have hlabelled : Sound agree { s with labels := s₁.labels } := hs.withLabels _
  have hp₁ := held.located.enlarged.sound.placed
  obtain ⟨hlive₁, hid⟩ := hp₁.of_lookup hc
  have hdead : ¬ s.Live c := by
    intro hlive
    have hsame : s₁.cell c = s.cell c := held.located.cell hlive.1
    have hfound := hs.placed.lookup_of_live hlive
    rw [← hsame, hid] at hfound
    exact nomatch hfound.symm.trans hnew
  obtain ⟨hsize, hcell | ⟨hm, _⟩⟩ := held.located.come hlabelled hlive₁ hdead
  · exact ⟨hid.symm.trans (congrArg Cell.id hcell), hsize, hcell⟩
  · obtain ⟨t, ht, hlookup⟩ := held.located.id_of_mem hm
    obtain ⟨c', hc'⟩ := hpresent t ht
    obtain rfl := Option.some.inj ((held.lookup_before hs hc').1.symm.trans hlookup)
    exact absurd (hs.placed.of_lookup hc').1 hdead

end Before

variable (held : HeldEnds agree who r gate code G s i cells new s₁ locks)
  (passes : Action.admitted { s₁ with locks } r.arc code gate i cells = .ok passing)
  (writes : connectAll who.now r code u i passing (0, none) (readied who i s₁ locks) =
    (answer, s₂))
  (hs : s.Sound agree)
  (hpresent : ∀ t ∈ r.terminals.ids, ∃ c, s.lookup t = some c)
  (hapart : r.initial ∉ r.terminals.ids)

include held passes in
theorem Action.HeldEnds.isEmpty_admitted : (r.admitted gate s).isEmpty = passing.isEmpty := by
  have hlength := held.countP_admitted passes (p := fun _ => true) (q := fun _ => true)
    fun _ _ _ => rfl
  rw [List.countP_true, List.countP_true] at hlength
  rw [Bool.eq_iff_iff, List.isEmpty_iff_length_eq_zero, List.isEmpty_iff_length_eq_zero, hlength]

include held hapart in
theorem Action.HeldEnds.apart (hid : id ∈ r.terminals.ids) (hc : s₁.lookup id = some c) :
    c ≠ i := by
  rintro rfl
  have hp₁ := held.located.enlarged.sound.placed
  have he := (hp₁.of_lookup hc).2.symm.trans (hp₁.of_lookup held.located.initial).2
  exact hapart (he ▸ hid)

include held passes writes

theorem Action.HeldEnds.vertexSnapshot_dropAll (hc : (s₂.dropAll new).lookup id = some c) :
    (s₂.dropAll new).vertexSnapshot c = s₂.vertexSnapshot c :=
  vertexSnapshot_of_cell (held.cell_dropAll passes writes hc)
    (congrArg Labels.types (sameDates_dropAll s₂ new).labels)

include hs hpresent

omit hs hpresent in
theorem Action.HeldEnds.lookup_initial : (s₂.dropAll new).lookup r.initial = some i :=
  (held.lookup_dropAll_iff passes writes).2
    ⟨held.located.initial, held.not_dropped_initial passes writes⟩

theorem Action.HeldEnds.served_initial : (s₂.dropAll new).vertex? r.initial =
    some (.initial who.now r.initial (!(r.admitted gate s).isEmpty) (s.vertex? r.initial)) := by
  have hlookup := held.lookup_initial passes writes
  have hpromoted : (s₁.vertexSnapshot i).promote who.now =
      (s.vertex? r.initial).elim { id := r.initial, created := who.now, modified := who.now }
        (·.promote who.now) := by
    cases hfound : s.lookup r.initial with
    | some c =>
      obtain rfl : c = i := Option.some.inj
        ((held.lookup_before hs hfound).1.symm.trans held.located.initial)
      rw [vertex?, hfound, held.vertexSnapshot_before hs hfound]
      rfl
    | none =>
      obtain ⟨_, _, hcell⟩ := held.come_initial hs hpresent held.located.initial hfound
      rw [vertex?, hfound, vertexSnapshot_eq, data, hcell]
      rfl
  rw [vertex?, hlookup, Option.map_some, held.vertexSnapshot_dropAll passes writes hlookup,
    held.vertexSnapshot_written passes writes, vertexSnapshot_readied held.located.live_initial.1,
    if_pos rfl, hpromoted, held.isEmpty_admitted passes, VertexSnapshot.initial]
  cases passing with
  | nil => simp
  | cons t rest => simp

include hapart in
theorem Action.HeldEnds.served_terminal {t : String} (ht : t ∈ r.admitted gate s) :
    (s₂.dropAll new).vertex? t = (s.vertex? t).map (·.touch who.now) := by
  have hids := (List.mem_filter.1 ht).1
  obtain ⟨c, hc⟩ := hpresent t hids
  have hc₁ := (held.lookup_before hs hc).1
  have hpassing := (held.mem_passing_iff passes hc₁).2 ht
  have hlookup : (s₂.dropAll new).lookup t = some c :=
    (held.lookup_dropAll_iff passes writes).2
      ⟨hc₁, held.not_dropped_passing passes writes hpassing⟩
  rw [vertex?, hlookup, Option.map_some, held.vertexSnapshot_dropAll passes writes hlookup,
    held.vertexSnapshot_written passes writes, if_pos (.inl hpassing),
    vertexSnapshot_readied held.located.live_initial.1,
    if_neg (held.apart hapart hids hc₁).symm, held.vertexSnapshot_before hs hc, vertex?, hc]
  rfl

section Unserved

variable (hid : id ≠ r.initial) (hunserved : id ∉ r.admitted gate s)
include hid hunserved

omit hpresent in
/-- What was there and is not served has not been written. -/
theorem Action.HeldEnds.cell_unserved (hc : s.lookup id = some c) :
    s₁.lookup id = some c ∧ s₂.cell c = s.cell c := by
  obtain ⟨hc₁, hcell⟩ := held.lookup_before hs hc
  obtain ⟨hlive, hid₁⟩ := held.located.enlarged.sound.placed.of_lookup hc₁
  refine ⟨hc₁, (held.cell_written passes writes hlive ?_ ?_).trans hcell⟩
  · rintro rfl
    exact hid (hid₁.symm.trans
      (held.located.enlarged.sound.placed.of_lookup held.located.initial).2)
  · exact fun hm => hunserved ((held.mem_passing_iff passes hc₁).1 hm)

omit hpresent in
theorem Action.HeldEnds.dropped_unserved_iff (hc : s.lookup id = some c) :
    Dropped new G s₂ c ↔ id ∈ r.terminals.ids ∧ Stray G s c := by
  have hcell := (held.cell_unserved passes writes hs hid hunserved hc).2
  have hcell₁ := (held.lookup_before hs hc).2
  have hdata : s₂.data c = Store.data { s₁ with locks } c := by
    rw [data, hcell, ← hcell₁]
    rfl
  have hsame : Dropped new G s₂ c ↔ Dropped new G { s₁ with locks } c :=
    ⟨fun h => ⟨h.held, h.unheld, hdata ▸ h.manifestation, hdata ▸ h.degree⟩,
      fun h => ⟨h.held, h.unheld, hdata.symm ▸ h.manifestation, hdata.symm ▸ h.degree⟩⟩
  rw [hsame, held.dropped_iff hs hc]
  simp [hid]

theorem Action.HeldEnds.served_kept (hstays : ¬ (id ∈ r.terminals.ids ∧ Strays G s id)) :
    (s₂.dropAll new).lookup id = s.lookup id ∧
      ∀ c, s.lookup id = some c → (s₂.dropAll new).cell c = s.cell c := by
  have hfound : ∀ {c}, s.lookup id = some c → (s₂.dropAll new).lookup id = some c := by
    intro c hc
    refine (held.lookup_dropAll_iff passes writes).2
      ⟨(held.lookup_before hs hc).1, fun hdropped => hstays ?_⟩
    obtain ⟨hm, hstray⟩ :=
      (held.dropped_unserved_iff passes writes hs hid hunserved hc).1 hdropped
    exact ⟨hm, c, hc, hstray⟩
  refine ⟨?_, fun c hc => ?_⟩
  · cases hc : s.lookup id with
    | some c => exact hfound hc
    | none =>
      refine Option.eq_none_iff_forall_ne_some.2 fun c hc' => ?_
      have hc₁ := ((held.lookup_dropAll_iff passes writes).1 hc').1
      exact hid (held.come_initial hs hpresent hc₁ hc).1
  · rw [held.cell_dropAll passes writes (hfound hc)]
    exact (held.cell_unserved passes writes hs hid hunserved hc).2

omit hpresent in
theorem Action.HeldEnds.served_gone (hids : id ∈ r.terminals.ids) (hstrays : Strays G s id) :
    (s₂.dropAll new).lookup id = none := by
  obtain ⟨c, hc, hstray⟩ := hstrays
  refine Option.eq_none_iff_forall_ne_some.2 fun c' hc' => ?_
  obtain ⟨hc₁, hkept⟩ := (held.lookup_dropAll_iff passes writes).1 hc'
  obtain rfl := Option.some.inj ((held.lookup_before hs hc).1.symm.trans hc₁)
  exact hkept ((held.dropped_unserved_iff passes writes hs hid hunserved hc).2 ⟨hids, hstray⟩)

end Unserved

theorem Action.HeldEnds.served_came : ∃ c, (s₂.dropAll new).lookup r.initial = some c ∧
    (s.lookup r.initial = some c ∨ s.lookup r.initial = none ∧ s.cells.size ≤ c) := by
  refine ⟨i, held.lookup_initial passes writes, ?_⟩
  cases hfound : s.lookup r.initial with
  | none => exact .inr ⟨rfl, (held.come_initial hs hpresent held.located.initial hfound).2.1⟩
  | some c =>
    exact .inl ((held.lookup_before hs hfound).1.symm.trans held.located.initial)

omit hs hpresent in
theorem Action.HeldEnds.ends?_eq {t : String} (hc : s₁.lookup t = some c) :
    r.ends? (s₂.dropAll new) t = s₂.ending? r code i c := by
  obtain ⟨hs₂, hg₂⟩ := held.written passes writes
  have hframe := held.frame_written passes writes
  have hlinked := held.linked passes writes
  have hcode : s₂.labels.relationships.lookup? r.arc.relationship = some code := by
    rw [hlinked.labels]
    exact held.coded
  have hnames : s₂.Denotes (r.slot .timeExpires t) i c code :=
    ⟨(lookup_of_sameFrame hframe _).trans held.located.initial,
      (lookup_of_sameFrame hframe _).trans hc, hcode⟩
  have hsame := (sameArcs_dropAll hs₂ hg₂ held.given.writer).sameSlots hs₂ (sound_dropAll hs₂ new)
  rw [ConnectRequest.ends?, ending?, (hsame _).1, hnames.slot?]
  rfl

omit hs hpresent in
theorem Action.HeldEnds.served_schedule :
    (∀ t ∈ r.admitted gate s, (s₂.dropAll new).schedule.time? (r.span t) =
      (r.ends? (s₂.dropAll new) t).or (s.schedule.time? (r.span t))) ∧
      ∀ item, (∀ t ∈ r.admitted gate s, item ≠ r.span t) →
        (s₂.dropAll new).schedule.time? item = s.schedule.time? item := by
  obtain ⟨hsound, _, hframe⟩ := held.promoted
  obtain ⟨hnodup, hlive⟩ := held.live_passing passes
  have hp₁ := held.located.enlarged.sound.placed
  have hschedule : (readied who i s₁ locks).schedule = s.schedule := held.located.schedule
  have hinitial : ((readied who i s₁ locks).cell i).id = r.initial :=
    (hframe.id i).trans (hp₁.of_lookup held.located.initial).2
  have hterminal : ∀ {t c}, s₁.lookup t = some c → ((readied who i s₁ locks).cell c).id = t :=
    fun hc => (hframe.id _).trans (hp₁.of_lookup hc).2
  obtain ⟨hserved, hothers⟩ := time?_connectAll hsound
    (hframe.live_iff.2 held.located.live_initial) hlive hnodup who.now r code u (0, none)
  rw [writes, hinitial, hschedule] at hserved hothers
  rw [(sameDates_dropAll s₂ new).schedule]
  refine ⟨fun t ht => ?_, fun item hitem => hothers item fun c hc he => ?_⟩
  · obtain ⟨c, _, hc⟩ := held.located.terminal (List.mem_filter.1 ht).1
    have htime := hserved c ((held.mem_passing_iff passes hc).2 ht)
    rw [hterminal hc] at htime
    rw [held.ends?_eq passes writes hc]
    exact htime
  · obtain ⟨t, _, ht⟩ := held.located.id_of_mem (admitted_subset passes c hc)
    rw [hterminal ht] at he
    exact hitem t ((held.mem_passing_iff passes ht).1 hc) he

include hapart in
/-- A connect whose terminals were all there, and none of them its initial, serves them. -/
theorem Action.HeldEnds.served (hn : s.Named) :
    Served who r u G r.terminals.ids (r.admitted gate s) answer.1 s (s₂.dropAll new) := by
  obtain ⟨hcount, hsize, _⟩ := held.counted passes writes hs hn
  obtain ⟨hscheduled, hunscheduled⟩ := held.served_schedule passes writes
  have hlabels : (s₂.dropAll new).labels = s₁.labels := by
    rw [(sameDates_dropAll s₂ new).labels, (held.linked passes writes).labels]
    rfl
  refine
    { distinct := held.distinct.filter _
      chosen := fun t => held.mem_admitted_iff hs hn
      written := ⟨code, hlabels ▸ held.encoded,
        held.relinked passes writes hs hn (held.grown.valid hn.valid)⟩
      count := hcount
      size := hsize
      scheduled := hscheduled
      unscheduled := hunscheduled
      initial := held.served_initial passes writes hs hpresent
      terminal := fun t ht => held.served_terminal passes writes hs hpresent hapart ht
      kept := fun id hid hun => held.served_kept passes writes hs hpresent hid hun
      gone := fun id hids hun hstrays => ?_
      came := held.served_came passes writes hs hpresent
      config := ?_ }
  · exact held.served_gone passes writes hs (fun he => hapart (he ▸ hids)) hun hids hstrays
  · have hwritten : s₂.config = s₁.config := by
      have hconfig := config_connectAll who.now r code u i passing (0, none)
        (readied who i s₁ locks)
      rwa [writes] at hconfig
    rw [config_dropAll, hwritten]
    exact held.located.enlarged.same.2

end Serving

/-- A connect that has terminals, all of which were there, and succeeds has served them. -/
theorem Action.ConnectRun.served {agree : Agreement} {who : Caller} {r : ConnectRequest}
    {u : ArcUpdate} {G : List Guard} {s s' : Store} {answer : Nat × Option ArcValue}
    (h : ConnectRun agree who r u G s (.ok answer) s') (hs : s.Sound agree) (hn : s.Named)
    (haims : r.terminals.ids ≠ []) (hpresent : ∀ t ∈ r.terminals.ids, ∃ c, s.lookup t = some c)
    (hapart : r.initial ∉ r.terminals.ids) :
    ∃ served, Served who r u G r.terminals.ids served answer.1 s s' := by
  cases h with
  | idle _ unaimed => exact absurd unaimed haims
  | written held passes writes => exact ⟨_, held.served passes writes hs hpresent hapart hn⟩

end Arcbase
