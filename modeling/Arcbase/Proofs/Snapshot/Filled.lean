import Arcbase.Proofs.Snapshot.Committing
import Mathlib.Data.List.Find
set_option autoImplicit false

/-!
# Graphs that have been restored

A restored graph has exactly the vertices and the slots that its snapshot lists.  Where the
snapshot lists several arcs for a slot, the initial has the last of them, while the terminal
and the schedule have the first (`filled_commit`, `dated_commit`).
-/

namespace Arcbase

/-! ## Slots -/

/-- Where an arc of a snapshot is stored. -/
structure ArcSlot where
  initial : String
  terminal : String
  relationship : String
  kind : ArcKind
  deriving DecidableEq

def ArcSnapshot.slot (a : ArcSnapshot) : ArcSlot :=
  { initial := a.initial, terminal := a.terminal, relationship := a.relationship, kind := a.kind }

namespace Snapshot

/-- The first arc that is listed for a slot. -/
def first? (s : Snapshot) (slot : ArcSlot) : Option ArcSnapshot :=
  s.arcs.find? fun a => a.slot = slot

/-- The last arc that is listed for a slot. -/
def last? (s : Snapshot) (slot : ArcSlot) : Option ArcSnapshot :=
  s.arcs.reverse.find? fun a => a.slot = slot

/-- Of the arcs that are listed for the slot of a regular arc, or of one with a time, the
first and the last have the same value. -/
def Settled (s : Snapshot) : Prop :=
  ∀ slot a b, s.first? slot = some a → s.last? slot = some b →
    a.forwardOnly = false ∨ slot.kind = .timeExpires → a.value = b.value

/-- No slot is listed twice. -/
def Distinct (s : Snapshot) : Prop :=
  ∀ a ∈ s.arcs, ∀ b ∈ s.arcs, a.slot = b.slot → a = b

variable {s : Snapshot} {slot : ArcSlot} {a : ArcSnapshot}

theorem mem_of_first? (h : s.first? slot = some a) : a ∈ s.arcs ∧ a.slot = slot :=
  ⟨List.mem_of_find?_eq_some h, by simpa using List.find?_some h⟩

theorem mem_of_last? (h : s.last? slot = some a) : a ∈ s.arcs ∧ a.slot = slot :=
  ⟨List.mem_reverse.1 (List.mem_of_find?_eq_some h), by simpa using List.find?_some h⟩

theorem isSome_first? (s : Snapshot) (slot : ArcSlot) :
    (s.first? slot).isSome = (s.last? slot).isSome := by
  rw [first?, last?, Bool.eq_iff_iff, List.find?_isSome, List.find?_isSome]
  simp only [List.mem_reverse]

theorem Distinct.last?_slot (h : s.Distinct) (ha : a ∈ s.arcs) : s.last? a.slot = some a := by
  have hsome : (s.last? a.slot).isSome = true :=
    List.find?_isSome.2 ⟨a, List.mem_reverse.2 ha, decide_eq_true rfl⟩
  obtain ⟨b, hb⟩ := Option.isSome_iff_exists.1 hsome
  obtain ⟨hm, hslot⟩ := mem_of_last? hb
  rw [hb, h b hm a ha hslot]

theorem Distinct.settled (h : s.Distinct) : s.Settled := by
  intro slot a b ha hb _
  obtain ⟨ham, haslot⟩ := mem_of_first? ha
  obtain ⟨hbm, hbslot⟩ := mem_of_last? hb
  rw [h a ham b hbm (haslot.trans hbslot.symm)]

end Snapshot

/-- What a graph has that has been restored from a snapshot. -/
structure Filled (snapshot : Snapshot) (s : Store) : Prop where
  vertices : ∀ v ∈ snapshot.vertices, ∃ c, s.lookup v.id = some c ∧ s.vertexSnapshot c = v
  only : ∀ id c, s.lookup id = some c → s.vertexSnapshot c ∈ snapshot.vertices
  ends : ∀ a ∈ snapshot.arcs, a.kind.allows a.value = true ∧ ∃ i t code,
    s.lookup a.initial = some i ∧ s.lookup a.terminal = some t ∧
      s.labels.relationships.decode? code = some a.relationship
  named : ∀ p ∈ s.arcs, ∃ label, s.labels.relationships.decode? p.arc.relationship = some label
  /-- The initial of an arc has the last one. -/
  out : ∀ slot i t code, s.lookup slot.initial = some i → s.lookup slot.terminal = some t →
    s.labels.relationships.decode? code = some slot.relationship →
      s.arcAt? i t code slot.kind = (snapshot.last? slot).map (·.stored code)
  /-- The terminal of a regular arc has the first one. -/
  inward : ∀ slot i t code, s.lookup slot.initial = some i → s.lookup slot.terminal = some t →
    s.labels.relationships.decode? code = some slot.relationship →
      s.inwardAt? i t code slot.kind =
        ((snapshot.first? slot).filter fun a => !a.forwardOnly).map (·.stored code)
  counted : ∀ t ∈ s.registered, (s.data t).forwardOnlyIn =
    (s.registered.map (s.forwardOnlyTo t)).sum
  size : s.size = s.arcs.length

/-- What is scheduled of a snapshot. -/
structure Dated (snapshot : Snapshot) (s : Store) : Prop where
  vertices : ∀ id time, s.schedule.time? (.vertex id) = some time ↔
    ∃ c, s.lookup id = some c ∧ (s.data c).expires = some time
  /-- The first arc of a slot is scheduled. -/
  arcs : ∀ initial relationship terminal,
    s.schedule.time? (.arc initial relationship terminal) =
      (snapshot.first? ⟨initial, terminal, relationship, .timeExpires⟩).bind (·.value.unsigned?)

open Staging CodedArc Store

variable {s : Store} {snapshot : Snapshot} {vertices : List VertexSnapshot}
  {arcs : List ArcSnapshot} {g : Staging} {l : Labels} {coded : List CodedArc}

/-! ## Slots of what is staged -/

/-- Staged vertices are told apart by their keys. -/
theorem Staging.eq_of_key {id id' : String} (hi : g.contains id = true)
    (hi' : g.contains id' = true) (hkey : VertexKey.of id = .of id') : id = id' := by
  obtain ⟨cell, hcell, hid⟩ := (Option.any_eq_true ..).1 hi
  obtain ⟨cell', hcell', hid'⟩ := (Option.any_eq_true ..).1 hi'
  rw [hkey] at hcell
  obtain rfl := Option.some.inj (hcell.symm.trans hcell')
  exact (beq_iff_eq.1 hid).symm.trans (beq_iff_eq.1 hid')

/-! ## Slots of what is staged -/

/-- The arcs of a snapshot that have been staged, each with the code of its relationship. -/
structure Coded (g : Staging) (l : Labels) (arcs : List ArcSnapshot) (coded : List CodedArc) :
    Prop where
  filed : g.Filed coded
  labels : l.relationships.Valid
  codes : ∀ p ∈ coded, l.relationships.decode? p.code = some p.arc.relationship
  arcs : coded.map CodedArc.arc = arcs

namespace Coded

variable {slot : ArcSlot} {code : LabelCode} (h : Coded g l snapshot.arcs coded)
  (hi : g.contains slot.initial = true) (ht : g.contains slot.terminal = true)
  (hcode : l.relationships.decode? code = some slot.relationship)
include h hcode

theorem stored_eq {p : CodedArc} (hp : p ∈ coded) (hslot : p.arc.slot = slot) :
    p.stored = p.arc.stored code := by
  have hcodes := h.codes p hp
  have hcode' : p.arc.relationship = slot.relationship := congrArg ArcSlot.relationship hslot
  rw [hcode'] at hcodes
  rw [stored, h.labels.eq_of_decode? hcodes hcode]

include hi ht

/-- A slot between staged vertices is a slot of the snapshot. -/
theorem isAt_eq {p : CodedArc} (hp : p ∈ coded) :
    p.isAt (.of slot.initial) (.of slot.terminal) code slot.kind = decide (p.arc.slot = slot) := by
  obtain ⟨hpi, hpt⟩ := h.filed.ends p hp
  rw [Bool.eq_iff_iff, isAt_iff, decide_eq_true_eq, Slots.inSlot_iff]
  constructor
  · rintro ⟨hinitial, hterminal, hcoded, hkind⟩
    have hrelationship : p.arc.relationship = slot.relationship := by
      have hdecode := h.codes p hp
      rw [show p.code = code from hcoded, hcode] at hdecode
      exact (Option.some.inj hdecode).symm
    exact ArcSlot.mk.injEq .. ▸
      ⟨eq_of_key hpi hi hinitial, eq_of_key hpt ht hterminal, hrelationship, hkind⟩
  · rintro rfl
    exact ⟨rfl, rfl, h.labels.eq_of_decode? (h.codes p hp) hcode, rfl⟩

variable (slot) in
theorem first?_eq :
    (CodedArc.first? coded (.of slot.initial) (.of slot.terminal) code slot.kind).map
      CodedArc.arc = snapshot.first? slot := by
  rw [Snapshot.first?, ← h.arcs, List.find?_map, CodedArc.first?]
  exact congrArg (Option.map _) (List.find?_congr fun p hp => h.isAt_eq hi ht hcode hp)

theorem last?_eq :
    (CodedArc.last? coded (.of slot.initial) (.of slot.terminal) code slot.kind).map
      CodedArc.arc = snapshot.last? slot := by
  rw [Snapshot.last?, ← h.arcs, ← List.map_reverse, List.find?_map, CodedArc.last?]
  exact congrArg (Option.map _) (List.find?_congr fun p hp =>
    h.isAt_eq hi ht hcode (List.mem_reverse.1 hp))

/-- What a staged vertex has in a slot is the arc of the snapshot. -/
theorem map_stored {found : Option CodedArc} (hfound : ∀ p, found = some p →
      p ∈ coded ∧ p.isAt (.of slot.initial) (.of slot.terminal) code slot.kind = true) :
    found.map stored = (found.map CodedArc.arc).map (·.stored code) := by
  cases found with
  | none => rfl
  | some p =>
    obtain ⟨hp, hat⟩ := hfound p rfl
    rw [h.isAt_eq hi ht hcode hp, decide_eq_true_eq] at hat
    exact congrArg some (h.stored_eq hcode hp hat)

end Coded

/-! ## What is put in -/

namespace Staging

variable {id : String} {c : CellId} {cell : Cell}

/-- Under an identifier there is what has been staged for it. -/
theorem staged_of_lookup (hg : g.Keyed) (hempty : s.table = .empty)
    (hc : (g.commit s).lookup id = some c) :
    g.cells.get? (.of id) = some ((g.commit s).cell c) ∧ ((g.commit s).cell c).id = id := by
  obtain ⟨hkey, hid⟩ := Option.filter_eq_some_iff.1 hc
  obtain ⟨cell, hcell, rfl⟩ := staged_of_lookupKey hg hempty hkey
  exact ⟨hcell, by simpa using hid⟩

theorem contains_of_lookup (hg : g.Keyed) (hempty : s.table = .empty)
    (hc : (g.commit s).lookup id = some c) : g.contains id = true := by
  obtain ⟨hcell, hid⟩ := staged_of_lookup hg hempty hc
  rw [contains, hcell, Option.any_some, hid, beq_self_eq_true]

theorem exists_lookup (hg : g.Keyed) (s : Store) (hcell : g.cells.get? (.of id) = some cell)
    (hid : cell.id = id) : ∃ c, (g.commit s).lookup id = some c ∧ (g.commit s).cell c = cell := by
  obtain ⟨c, hc, hsame⟩ := cell_commit hg s hcell
  exact ⟨c, Option.filter_eq_some_iff.2 ⟨hc, by rw [hsame, hid, beq_self_eq_true]⟩, hsame⟩

theorem lookup_of_contains (hg : g.Keyed) (s : Store) (h : g.contains id = true) :
    ∃ c, (g.commit s).lookup id = some c := by
  obtain ⟨cell, hcell, hid⟩ := (Option.any_eq_true ..).1 h
  obtain ⟨c, hc, _⟩ := exists_lookup hg s hcell (beq_iff_eq.1 hid)
  exact ⟨c, hc⟩

end Staging

/-! ## The schedule -/

theorem ArcSnapshot.entry?_eq_some_iff {a : ArcSnapshot} {item : Expiring} {time : UInt32} :
    a.entry? = some (item, time) ↔ a.kind = .timeExpires ∧
      item = .arc a.initial a.relationship a.terminal ∧ a.value.unsigned? = some time := by
  unfold entry?
  split
  next hkind hvalue =>
    rw [hkind, hvalue, Option.some.injEq, Prod.mk.injEq]
    simp only [true_and, ArcValue.unsigned?, Option.some.injEq, eq_comm]
  next hother =>
    refine ⟨nofun, fun ⟨hkind, _, hvalue⟩ => ?_⟩
    unfold ArcValue.unsigned? at hvalue
    split at hvalue
    next time' hunsigned => exact absurd hunsigned (hother time' hkind)
    next => cases hvalue

/-- What is scheduled of the arcs is the first of each slot. -/
theorem Coded.mem_expiring_iff (h : Coded g l snapshot.arcs coded) {initial relationship terminal :
    String} {time : UInt32} :
    (.arc initial relationship terminal, time) ∈ g.expiring ↔ ∃ a,
      snapshot.first? ⟨initial, terminal, relationship, .timeExpires⟩ = some a ∧
        a.value.unsigned? = some time := by
  rw [h.filed.expiring]
  constructor
  · rintro ⟨i, t, code, p, hp, he⟩
    obtain ⟨hm, hat⟩ := CodedArc.mem_of_first? hp
    obtain ⟨hkind, hitem, hvalue⟩ := ArcSnapshot.entry?_eq_some_iff.1 he
    obtain ⟨rfl, rfl, rfl⟩ := Expiring.arc.inj hitem
    obtain ⟨rfl, rfl, hslot⟩ := isAt_iff.1 hat
    obtain ⟨rfl, _⟩ := Slots.inSlot_iff.1 hslot
    obtain ⟨hi, ht⟩ := h.filed.ends p hm
    have hfirst := h.first?_eq ⟨p.arc.initial, p.arc.terminal, p.arc.relationship,
      .timeExpires⟩ hi ht (h.codes p hm)
    refine ⟨p.arc, hfirst.symm.trans ?_, hvalue⟩
    exact congrArg (Option.map CodedArc.arc) hp
  · rintro ⟨a, ha, hvalue⟩
    obtain ⟨hm, hslot⟩ := Snapshot.mem_of_first? ha
    rw [← h.arcs] at hm
    obtain ⟨p, hp, rfl⟩ := List.mem_map.1 hm
    obtain ⟨hi, ht⟩ := h.filed.ends p hp
    obtain ⟨rfl, rfl, rfl, hkind⟩ := ArcSlot.mk.inj hslot
    have hfirst := h.first?_eq ⟨p.arc.initial, p.arc.terminal, p.arc.relationship,
      .timeExpires⟩ hi ht (h.codes p hp)
    rw [ha] at hfirst
    obtain ⟨q, hq, hsame⟩ := Option.map_eq_some_iff.1 hfirst
    refine ⟨_, _, _, q, hq, ?_⟩
    rw [hsame]
    exact ArcSnapshot.entry?_eq_some_iff.2 ⟨hkind, rfl, hvalue⟩

/-- Each item is scheduled at one time only. -/
theorem Coded.agree (h : Coded g l snapshot.arcs coded)
    (he : g.Enrolled vertices l) :
    ∀ e ∈ g.expiring ++ g.vertexEntries, ∀ e' ∈ g.expiring ++ g.vertexEntries,
      e.1 = e'.1 → e.2 = e'.2 := by
  have harc : ∀ {item time}, (item, time) ∈ g.expiring → ∃ initial relationship terminal,
      item = .arc initial relationship terminal := by
    intro item time hm
    obtain ⟨_, _, _, p, _, hp⟩ := (h.filed.expiring _).1 hm
    exact ⟨_, _, _, (ArcSnapshot.entry?_eq_some_iff.1 hp).2.1⟩
  have hvertex : ∀ {item time}, (item, time) ∈ g.vertexEntries → ∃ cell,
      g.cells.get? (.of cell.id) = some cell ∧ item = .vertex cell.id ∧
        cell.data.expires = some time := by
    intro item time hm
    obtain ⟨key, cell, hcell, time', htime, heq⟩ := mem_vertexEntries.1 hm
    obtain ⟨rfl, rfl⟩ := Prod.mk.inj heq
    exact ⟨cell, (he.keyed key cell hcell).2 ▸ hcell, rfl, htime⟩
  rintro ⟨item, time⟩ hm ⟨item', time'⟩ hm' (rfl : item = item')
  rcases List.mem_append.1 hm with hm | hm <;> rcases List.mem_append.1 hm' with hm' | hm'
  · obtain ⟨initial, relationship, terminal, rfl⟩ := harc hm
    obtain ⟨a, ha, hvalue⟩ := h.mem_expiring_iff.1 hm
    obtain ⟨a', ha', hvalue'⟩ := h.mem_expiring_iff.1 hm'
    obtain rfl := Option.some.inj (ha.symm.trans ha')
    exact Option.some.inj (hvalue.symm.trans hvalue')
  · obtain ⟨_, _, _, rfl⟩ := harc hm
    obtain ⟨_, _, hitem, _⟩ := hvertex hm'
    cases hitem
  · obtain ⟨_, _, hitem, _⟩ := hvertex hm
    obtain ⟨_, _, _, rfl⟩ := harc hm'
    cases hitem
  · obtain ⟨cell, hcell, rfl, htime⟩ := hvertex hm
    obtain ⟨cell', hcell', hitem, htime'⟩ := hvertex hm'
    rw [Expiring.vertex.inj hitem] at hcell
    obtain rfl := Option.some.inj (hcell.symm.trans hcell')
    exact Option.some.inj (htime.symm.trans htime')

/-- What is in the schedule of a restored graph. -/
theorem Coded.time?_commit (h : Coded g l snapshot.arcs coded)
    (he : g.Enrolled vertices l) (hidle : s.schedule.size = 0) {item : Expiring} {time : UInt32} :
    (g.commit s).schedule.time? item = some time ↔
      (item, time) ∈ g.expiring ∨ (item, time) ∈ g.vertexEntries := by
  rw [schedule_commit, Schedule.time?_foldl_set (h.agree he)
    (Schedule.time?_eq_none_of_size hidle), List.mem_append]

/-! ## Restored graphs -/

theorem ArcsStaged.exists_coded {start : Store} (h : ArcsStaged start vertices arcs g l) :
    ∃ coded, Coded g l arcs coded := by
  obtain ⟨coded, hmap, hcodes, hfiled⟩ := h.filed
  exact ⟨coded, hfiled, h.labels.relationships, hcodes, hmap⟩

section Commit

variable {start : Store} (h : ArcsStaged start snapshot.vertices snapshot.arcs g s.labels)
  (hempty : s.table = .empty)
include h hempty

/-- A graph that has been restored has what the snapshot lists. -/
theorem filled_commit (hs : (g.commit s).Sound .slots) : Filled snapshot (g.commit s) := by
  obtain ⟨coded, hcoded⟩ := h.exists_coded
  have hg := h.keyed
  have hlabels := g.labels_commit s
  have hlisting : ∀ c, (g.commit s).vertexSnapshot c =
      ((g.commit s).cell c).listing s.labels := fun c => hlabels ▸ rfl
  refine ⟨fun v hv => ?_, fun id c hc => ?_, fun a ha => ?_, fun p hp => ?_,
    fun slot i t code hi ht hcode => ?_, fun slot i t code hi ht hcode => ?_,
    fun t ht => hs.paired.counted t ((mem_registered_iff hs.placed).1 ht),
    (length_arcs hs).symm⟩
  · obtain ⟨cell, hcell, hlisted⟩ := h.enrolled.listed v hv
    obtain ⟨c, hc, hsame⟩ := exists_lookup hg s hcell (congrArg VertexSnapshot.id hlisted)
    exact ⟨c, hc, (hlisting c).trans (hsame ▸ hlisted)⟩
  · rw [hlisting]
    exact h.enrolled.only _ _ (staged_of_lookup hg hempty hc).1
  · rw [← hcoded.arcs] at ha
    obtain ⟨p, hp, rfl⟩ := List.mem_map.1 ha
    obtain ⟨hpi, hpt⟩ := hcoded.filed.ends p hp
    obtain ⟨i, hi⟩ := lookup_of_contains hg s hpi
    obtain ⟨t, ht⟩ := lookup_of_contains hg s hpt
    exact ⟨hcoded.filed.allowed p hp, i, t, p.code, hi, ht, hlabels ▸ hcoded.codes p hp⟩
  · obtain ⟨q, hq, hstored⟩ := exists_coded hg hcoded.filed hempty hs hp
    rw [hlabels, ← hstored]
    exact ⟨_, hcoded.codes q hq⟩
  · have hi' := contains_of_lookup hg hempty hi
    have ht' := contains_of_lookup hg hempty ht
    rw [hlabels] at hcode
    rw [arcAt?, show ((g.commit s).cell t).key = .of slot.terminal from
        hs.placed.keyOf_of_lookup ht, Store.data,
      hcoded.filed.out _ _ (staged_of_lookup hg hempty hi).1,
      hcoded.map_stored hi' ht' hcode fun _ => CodedArc.mem_of_last?,
      hcoded.last?_eq hi' ht' hcode]
  · have hi' := contains_of_lookup hg hempty hi
    have ht' := contains_of_lookup hg hempty ht
    rw [hlabels] at hcode
    rw [inwardAt?, hs.placed.keyOf_of_lookup hi, Store.data,
      hcoded.filed.inbound _ _ (staged_of_lookup hg hempty ht).1,
      hcoded.map_stored hi' ht' hcode fun p hp =>
        CodedArc.mem_of_first? (Option.filter_eq_some_iff.1 hp).1,
      ← hcoded.first?_eq _ hi' ht' hcode, Option.filter_map]
    rfl

/-- If nothing was scheduled, what expires is scheduled now. -/
theorem dated_commit (hidle : s.schedule.size = 0) : Dated snapshot (g.commit s) := by
  obtain ⟨coded, hcoded⟩ := h.exists_coded
  have hg := h.keyed
  refine ⟨fun id time => ?_, fun initial relationship terminal => Option.ext fun time => ?_⟩
  · rw [hcoded.time?_commit h.enrolled hidle]
    constructor
    · rintro (hm | hm)
      · obtain ⟨_, _, _, p, _, hp⟩ := (hcoded.filed.expiring _).1 hm
        exact absurd (ArcSnapshot.entry?_eq_some_iff.1 hp).2.1 nofun
      · obtain ⟨key, cell, hcell, _, htime, heq⟩ := mem_vertexEntries.1 hm
        obtain ⟨hitem, rfl⟩ := Prod.mk.inj heq
        obtain rfl := Expiring.vertex.inj hitem
        obtain ⟨c, hc, hsame⟩ :=
          exists_lookup hg s ((h.enrolled.keyed key cell hcell).2 ▸ hcell) rfl
        exact ⟨c, hc, (congrArg (·.data.expires) hsame).trans htime⟩
    · rintro ⟨c, hc, htime⟩
      obtain ⟨hcell, hid⟩ := staged_of_lookup hg hempty hc
      exact .inr (mem_vertexEntries.2 ⟨_, _, hcell, time, htime, hid ▸ rfl⟩)
  · rw [hcoded.time?_commit h.enrolled hidle, hcoded.mem_expiring_iff, Option.bind_eq_some_iff]
    refine or_iff_left fun hm => ?_
    obtain ⟨_, _, _, _, _, heq⟩ := mem_vertexEntries.1 hm
    exact absurd (Prod.mk.inj heq).1 nofun

end Commit

/-! ## Snapshots in which slots have one value -/

namespace Store

/-- Vertices are told apart by their keys. -/
theorem Placed.eq_of_contains {s : Store} {id id' : String} (hp : s.Placed)
    (hid : s.contains id = true) (hid' : s.contains id' = true)
    (hkey : VertexKey.of id = .of id') : id = id' := by
  obtain ⟨c, hc⟩ := Option.isSome_iff_exists.1 hid
  obtain ⟨c', hc'⟩ := Option.isSome_iff_exists.1 hid'
  obtain ⟨hlive, rfl⟩ := hp.of_lookup hc
  obtain ⟨hlive', rfl⟩ := hp.of_lookup hc'
  rw [hp.eq_of_key hlive hlive' ((hp.keyOf_of_lookup hc).trans
    (hkey.trans (hp.keyOf_of_lookup hc').symm))]

/-- Sides that agree slot by slot agree if they have the same arcs. -/
theorem Sound.equal {s : Store} (h : s.Sound .slots)
    (hsame : ∀ i t, s.Live i → s.Live t → ∀ relationship kind,
      s.regularOut i t relationship kind = s.inwardAt? i t relationship kind) :
    s.Sound .equal := by
  refine ⟨h.placed, h.paired.valid, h.paired.known, fun i t hi ht relationship kind => ?_,
    h.paired.regular, h.paired.counted, h.paired.size⟩
  rw [← hsame i t hi ht relationship kind]
  cases s.regularOut i t relationship kind with
  | none => exact .none
  | some a => exact .some rfl

end Store

namespace Filled

variable (h : Filled snapshot s) (hs : s.Sound .slots)
include h hs

/-- An arc that is stored is the last one that the snapshot lists for its slot. -/
theorem exists_slot {i t : CellId} (hi : s.Live i) (ht : s.Live t) {code : LabelCode}
    {kind : ArcKind} {arc : StoredArc} (harc : s.arcAt? i t code kind = some arc) :
    ∃ slot a b, s.lookup slot.initial = some i ∧ s.lookup slot.terminal = some t ∧
      slot.kind = kind ∧ s.labels.relationships.decode? code = some slot.relationship ∧
      snapshot.first? slot = some a ∧ snapshot.last? slot = some b ∧ b.stored code = arc := by
  have hcode : arc.relationship = code := (ArcIndex.get?_slot harc).2.1
  obtain ⟨label, hlabel⟩ := h.named _ (arcAt?_mem_arcs hs hi harc)
  rw [hcode] at hlabel
  have hinitial := hs.placed.lookup_of_live hi
  have hterminal := hs.placed.lookup_of_live ht
  have hout := h.out ⟨(s.cell i).id, (s.cell t).id, label, kind⟩ i t code hinitial hterminal hlabel
  rw [harc] at hout
  obtain ⟨b, hb, hstored⟩ := Option.map_eq_some_iff.1 hout.symm
  have hfirst := snapshot.isSome_first? ⟨(s.cell i).id, (s.cell t).id, label, kind⟩
  rw [hb] at hfirst
  obtain ⟨a, ha⟩ := Option.isSome_iff_exists.1 hfirst
  exact ⟨⟨(s.cell i).id, (s.cell t).id, label, kind⟩, a, b, hinitial, hterminal, rfl, hlabel, ha,
    hb, hstored⟩

/-- Where each slot has one value, the two sides of all arcs agree. -/
theorem sound_of_settled (hsettled : snapshot.Settled) : s.Sound .equal := by
  refine hs.equal fun i t hi ht relationship kind => ?_
  have hmirror := hs.paired.mirror i t hi ht relationship kind
  cases hregular : s.regularOut i t relationship kind with
  | none =>
    rw [hregular] at hmirror
    cases hin : s.inwardAt? i t relationship kind with
    | none => rfl
    | some b =>
      rw [hin] at hmirror
      cases hmirror
  | some arc =>
    obtain ⟨hat, hforward⟩ := Option.filter_eq_some_iff.1 hregular
    obtain ⟨other, hother, _⟩ := hs.paired.inward_of_out hi ht hat (by simpa using hforward)
    obtain ⟨slot, a, b, hinitial, hterminal, rfl, hcode, ha, hb, rfl⟩ := h.exists_slot hs hi ht hat
    have hin := h.inward slot i t relationship hinitial hterminal hcode
    rw [hother, ha] at hin
    obtain ⟨a', ha', rfl⟩ := Option.map_eq_some_iff.1 hin.symm
    obtain ⟨hsame, hregulara⟩ := Option.filter_eq_some_iff.1 ha'
    obtain rfl := Option.some.inj hsame
    have hvalue := hsettled slot a b ha hb (.inl (by simpa using hregulara))
    have hkind : b.kind = a.kind := congrArg ArcSlot.kind
      ((Snapshot.mem_of_last? hb).2.trans (Snapshot.mem_of_first? ha).2.symm)
    have hforwards : b.forwardOnly = a.forwardOnly := by
      simp_all [ArcSnapshot.stored]
    rw [hother, ArcSnapshot.stored, ArcSnapshot.stored, hkind, hvalue, hforwards]

end Filled

end Arcbase
