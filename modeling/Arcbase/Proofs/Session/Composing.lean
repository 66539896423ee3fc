import Arcbase.Proofs.Session.Serving
set_option autoImplicit false

/-!
# Connects one after the other

What two connects of one request toward different terminals make of a graph is what a single
one makes of it toward all of them (`Served.andThen`): neither writes what the condition, the
slots or the vertices of the other one are told by.  The order of the terminals does not enter
into it (`Served.coincide`).
-/

namespace Arcbase

open Arcbase.Action Store

variable {agree : Agreement} {who : Caller} {r : ConnectRequest} {u : ArcUpdate} {G : List Guard}
  {s s' s'' : Store} {now : UInt32} {code : LabelCode} {ids ids' served served' : List String}
  {n n' : Nat} {t id : String}

/-! ## Labels and slots -/

/-- A label that has just been given a code has it. -/
theorem Labels.encodeRelationship_again {l l' : Labels} {label : String} (hl : l.Valid)
    (h : l.encodeRelationship label = (.ok code, l')) :
    l'.encodeRelationship label = (.ok code, l') := by
  rcases encodeRelationship_cases hl h with ⟨fault, he⟩ | ⟨code', hcode, _, hlookup⟩
  · cases he
  · obtain rfl : code = code' := Except.ok.inj hcode
    exact encodeRelationship_of_lookup hlookup

theorem ConnectRequest.vacant_append (r : ConnectRequest) (kind : ArcKind) (s : Store)
    (ids ids' : List String) :
    r.vacant kind s (ids ++ ids') = r.vacant kind s ids + r.vacant kind s ids' :=
  List.countP_append

theorem ConnectRequest.covers_append {slot : SlotName} :
    r.Covers (ids ++ ids') slot ↔ r.Covers ids slot ∨ r.Covers ids' slot := by
  simp only [Covers, List.mem_append]
  tauto

theorem Store.Relinked.andThen (h : Relinked now r code u ids s s')
    (h' : Relinked now r code u ids' s' s'') (hdisjoint : ∀ t ∈ ids, t ∉ ids') :
    Relinked now r code u (ids ++ ids') s s'' := by
  have hneither : ∀ {slot}, r.Covers ids slot → ¬ r.Covers ids' slot :=
    fun hc hc' => hdisjoint _ hc.2.2 hc'.2.2
  refine ⟨fun slot => ?_, fun slot hnot => ?_, fun slot hc hw => ?_⟩
  · rw [h'.slot, h.slot]
    by_cases hc : r.Covers ids slot
    · rw [if_neg (hneither hc), if_pos hc, if_pos (ConnectRequest.covers_append.2 (.inl hc))]
    · rw [if_neg hc]
      by_cases hc' : r.Covers ids' slot
      · rw [if_pos hc', if_pos (ConnectRequest.covers_append.2 (.inr hc'))]
      · rw [if_neg hc', if_neg fun hboth => (ConnectRequest.covers_append.1 hboth).elim hc hc']
  · rw [h'.inward slot fun hc => hnot ⟨ConnectRequest.covers_append.2 (.inr hc.1), hc.2⟩,
      h.inward slot fun hc => hnot ⟨ConnectRequest.covers_append.2 (.inl hc.1), hc.2⟩]
  · rcases ConnectRequest.covers_append.1 hc with hc | hc
    · rw [h'.inward slot fun hc' => hneither hc hc'.1, h.mirrored slot hc hw, h'.slot,
        if_neg (hneither hc)]
    · exact h'.mirrored slot hc hw

/-- The slots come out the same whatever the order of the terminals. -/
theorem Store.Relinked.sameSlots (h : Relinked now r code u ids s s')
    (h' : Relinked now r code u ids' s s'') (hmem : ∀ t, t ∈ ids ↔ t ∈ ids') :
    SameSlots s' s'' := by
  have hcovers : ∀ {slot}, r.Covers ids slot ↔ r.Covers ids' slot := fun {slot} =>
    and_congr_right fun _ => and_congr_right fun _ => hmem slot.terminal
  have hout : ∀ slot, s''.slot? slot = s'.slot? slot := by
    intro slot
    rw [h'.slot, h.slot]
    exact if_congr hcovers.symm rfl rfl
  refine fun slot => ⟨hout slot, ?_⟩
  by_cases hc : r.Covers ids slot ∧ r.Writes slot.kind
  · rw [h'.mirrored slot (hcovers.1 hc.1) hc.2, h.mirrored slot hc.1 hc.2, hout]
  · rw [h.inward slot hc, h'.inward slot fun hc' => hc ⟨hcovers.2 hc'.1, hc'.2⟩]

/-! ## What a connect leaves to another one -/

theorem VertexSnapshot.promote_of_real {v : VertexSnapshot} (h : v.manifestation = .real)
    (now : UInt32) : v.promote now = v := by
  rw [promote, h, if_neg Manifestation.noConfusion]

/-- An initial that has been served is real, and is changed at one and the same time. -/
theorem VertexSnapshot.initial_initial (now : UInt32) (id : String) (linked linked' : Bool)
    (old : Option VertexSnapshot) :
    initial now id linked' (some (initial now id linked old)) =
      initial now id (linked || linked') old := by
  have hreal : (old.elim { id, created := now, modified := now } (·.promote now) :
      VertexSnapshot).manifestation = .real := by
    cases old with
    | none => rfl
    | some v => exact manifestation_promote v now
  simp only [initial, Option.elim_some]
  generalize (old.elim { id, created := now, modified := now } (·.promote now) :
    VertexSnapshot) = v at hreal ⊢
  cases linked with
  | false => simp [promote_of_real hreal]
  | true =>
    have htouched : (v.touch now).promote now = v.touch now :=
      promote_of_real (v := v.touch now) hreal now
    cases linked' with
    | false => exact htouched
    | true => exact congrArg (·.touch now) htouched

namespace Served

section Frame

variable (h : Served who r u G ids served n s s')
include h

theorem mem_ids (ht : t ∈ served) : t ∈ ids := ((h.chosen t).1 ht).1

theorem slot_other {slot : SlotName} (hother : ¬ r.Covers served slot) :
    s'.slot? slot = s.slot? slot := by
  obtain ⟨_, _, hslots⟩ := h.written
  rw [hslots.slot, if_neg hother]

theorem types : s'.labels.types = s.labels.types := by
  obtain ⟨_, hencoded, _⟩ := h.written
  have htypes := Labels.types_encodeRelationship s.labels r.arc.relationship
  rwa [hencoded] at htypes

theorem vertex?_kept (hid : id ≠ r.initial) (hunserved : id ∉ served)
    (hstays : ¬ (id ∈ ids ∧ Strays G s id)) : s'.vertex? id = s.vertex? id := by
  obtain ⟨hlookup, hcell⟩ := h.kept id hid hunserved hstays
  rw [vertex?, vertex?, hlookup]
  cases hc : s.lookup id with
  | none => rfl
  | some c => exact congrArg some (vertexSnapshot_of_cell (hcell c hc) h.types)

theorem strays_iff (hid : id ≠ r.initial) (hunserved : id ∉ ids) :
    Strays G s' id ↔ Strays G s id := by
  obtain ⟨hlookup, hcell⟩ :=
    h.kept id hid (fun hm => hunserved (h.mem_ids hm)) fun hm => hunserved hm.1
  refine exists_congr fun c => ?_
  rw [hlookup]
  refine and_congr_right fun hc => ?_
  have hdata : s'.data c = s.data c := congrArg Cell.data (hcell c hc)
  exact ⟨fun hs => ⟨hdata ▸ hs.manifestation, hdata ▸ hs.degree, hs.unheld⟩,
    fun hs => ⟨hdata.symm ▸ hs.manifestation, hdata.symm ▸ hs.degree, hs.unheld⟩⟩

/-- Whether another terminal is let pass does not change. -/
theorem lets_iff (hid : t ≠ r.initial) (hunserved : t ∉ ids) : r.Lets s' t ↔ r.Lets s t := by
  refine forall_congr' fun condition => imp_congr_right fun _ => meets_congr ?_ ?_
  · rintro slot hinitial rfl
    exact h.slot_other fun hc => hunserved (h.mem_ids hc.2.2)
  · rintro slot rfl hterminal
    exact h.slot_other fun hc => hid hc.1

/-- The vacant slots toward other terminals stay vacant. -/
theorem vacant_eq (kind : ArcKind) (hother : ∀ t ∈ served', t ∉ ids) :
    r.vacant kind s' served' = r.vacant kind s served' := by
  refine List.countP_congr fun t ht => ?_
  rw [h.slot_other fun hc => hother t ht (h.mem_ids hc.2.2)]

theorem time?_other (hother : t ∉ ids) :
    s'.schedule.time? (r.span t) = s.schedule.time? (r.span t) :=
  h.unscheduled _ fun _ ht' he =>
    hother (h.mem_ids ((Expiring.arc.inj he).2.2 ▸ ht'))

end Frame

theorem ends?_other (h : Served who r u G ids served n s s') (hother : t ∉ ids) :
    r.ends? s' t = r.ends? s t := by
  rw [ConnectRequest.ends?, h.slot_other fun hc => hother (h.mem_ids hc.2.2), ConnectRequest.ends?]

/-- Two connects toward different terminals, one after the other. -/
theorem andThen (h : Served who r u G ids served n s s')
    (h' : Served who r u G ids' served' n' s' s'') (hl : s.labels.Valid)
    (hdisjoint : ∀ t ∈ ids, t ∉ ids') (hapart : r.initial ∉ ids ++ ids') :
    Served who r u G (ids ++ ids') (served ++ served') (n + n') s s'' := by
  have hother : ∀ {t}, t ∈ ids' → t ∉ ids := fun ht ht' => hdisjoint _ ht' ht
  have hne : ∀ {t}, t ∈ ids ++ ids' → t ≠ r.initial := fun ht he => hapart (he ▸ ht)
  have hne' : ∀ {t}, t ∈ ids' → t ≠ r.initial := fun ht => hne (List.mem_append_right _ ht)
  have hserved' : ∀ t ∈ served', t ∉ ids := fun t ht => hother (h'.mem_ids ht)
  have hunserved : ∀ t ∈ ids, t ∉ served' := fun t ht ht' => hdisjoint t ht (h'.mem_ids ht')
  refine
    { distinct := List.nodup_append.2 ⟨h.distinct, h'.distinct, fun t ht t' ht' he => ?_⟩
      chosen := fun t => ?_
      written := ?_
      count := ?_
      size := ?_
      scheduled := fun t ht => ?_
      unscheduled := fun item hitem => ?_
      initial := ?_
      terminal := fun t ht => ?_
      kept := fun id hid hun hstays => ?_
      gone := fun id hids hun hstrays => ?_
      came := ?_
      config := h'.config.trans h.config }
  · exact hunserved t (h.mem_ids ht) (he ▸ ht')
  · rw [List.mem_append, List.mem_append, h.chosen, h'.chosen, or_and_right]
    exact or_congr_right (and_congr_right fun ht => h.lets_iff (hne' ht) (hother ht))
  · obtain ⟨code, hencoded, hslots⟩ := h.written
    obtain ⟨code', hencoded', hslots'⟩ := h'.written
    rw [Labels.encodeRelationship_again hl hencoded] at hencoded'
    obtain ⟨hcode, hlabels⟩ := Prod.mk.inj hencoded'
    obtain rfl : code = code' := Except.ok.inj hcode
    exact ⟨code, hlabels ▸ hencoded, hslots.andThen hslots' fun t ht => hunserved t (h.mem_ids ht)⟩
  · rw [ConnectRequest.vacant_append, ← h.count, ← h.vacant_eq _ hserved', ← h'.count]
  · rw [h'.size, h.size, ConnectRequest.vacant_append, ← h.vacant_eq _ hserved']
    split <;> omega
  · rcases List.mem_append.1 ht with ht | ht
    · have hothers := hdisjoint t (h.mem_ids ht)
      rw [h'.time?_other hothers, h.scheduled t ht, h'.ends?_other hothers]
    · rw [h'.scheduled t ht, h.time?_other (hserved' t ht)]
  · rw [h'.unscheduled item fun t ht => hitem t (List.mem_append_right _ ht),
      h.unscheduled item fun t ht => hitem t (List.mem_append_left _ ht)]
  · rw [h'.initial, h.initial, VertexSnapshot.initial_initial]
    cases served <;> simp
  · rcases List.mem_append.1 ht with ht | ht
    · have hids := h.mem_ids ht
      rw [h'.vertex?_kept (hne (List.mem_append_left _ hids)) (hunserved t hids)
        fun hm => hdisjoint t hids hm.1, h.terminal t ht]
    · have hids := h'.mem_ids ht
      rw [h'.terminal t ht, h.vertex?_kept (hne' hids) (fun hm => hother hids (h.mem_ids hm))
        fun hm => hother hids hm.1]
  · obtain ⟨hlookup, hcell⟩ := h.kept id hid (fun hm => hun (List.mem_append_left _ hm))
      fun hm => hstays ⟨List.mem_append_left _ hm.1, hm.2⟩
    obtain ⟨hlookup', hcell'⟩ := h'.kept id hid (fun hm => hun (List.mem_append_right _ hm))
      fun hm => hstays ⟨List.mem_append_right _ hm.1, (h.strays_iff hid (hother hm.1)).1 hm.2⟩
    exact ⟨hlookup'.trans hlookup,
      fun c hc => (hcell' c (hlookup.trans hc)).trans (hcell c hc)⟩
  · rcases List.mem_append.1 hids with hm | hm
    · have hgone := h.gone id hm (fun hs => hun (List.mem_append_left _ hs)) hstrays
      exact (h'.kept id (hne hids) (fun hs => hun (List.mem_append_right _ hs))
        fun hm' => hdisjoint id hm hm'.1).1.trans hgone
    · exact h'.gone id hm (fun hs => hun (List.mem_append_right _ hs))
        ((h.strays_iff (hne hids) (hother hm)).2 hstrays)
  · obtain ⟨c, hc, hbefore⟩ := h.came
    obtain ⟨c', hc', hold | ⟨hnew, _⟩⟩ := h'.came
    · obtain rfl : c = c' := Option.some.inj (hc.symm.trans hold)
      exact ⟨c, hc', hbefore⟩
    · exact nomatch hc.symm.trans hnew

end Served

/-! ## The same graph -/

namespace Store

/-- Graphs that have the same in all slots have the same arcs. -/
theorem SameSlots.mem_arcs {agree' : Agreement} (h : s.SameSlots s') (hs : s.Sound agree)
    (hs' : s'.Sound agree') (hn : s.Named) {p : PlacedArc} (hp : p ∈ s.arcs) : p ∈ s'.arcs := by
  obtain ⟨slot, ha, hinitial, hterminal⟩ := exists_slot?_of_mem_arcs hs hn hp
  have hm := mem_arcs_of_slot? hs' ((h slot).1.trans ha)
  rwa [← hinitial, ← hterminal] at hm

theorem SameSlots.perm_links {agree' : Agreement} (h : s.SameSlots s') (hs : s.Sound agree)
    (hs' : s'.Sound agree') (hn : s.Named) (hn' : s'.Named) (hlabels : s'.labels = s.labels) :
    s.links.Perm s'.links := by
  have hback : s'.SameSlots s := fun slot => ⟨(h slot).1.symm, (h slot).2.symm⟩
  rw [links, links, hlabels]
  refine ((List.perm_ext_iff_of_nodup (nodup_arcs hs) (nodup_arcs hs')).2 fun p => ?_).map _
  exact ⟨h.mem_arcs hs hs' hn, hback.mem_arcs hs' hs hn'⟩

/-- Two graphs have the same vertices and the same arcs with their values, on both sides, are of
the same sizes, and schedule the same items at the same times. -/
structure Coincides (s s' : Store) : Prop where
  alike : s.Alike s'
  slots : s.SameSlots s'
  size : s'.size = s.size
  order : s'.order = s.order
  schedule : ∀ item, s'.schedule.time? item = s.schedule.time? item

theorem Coincides.refl (s : Store) : s.Coincides s :=
  ⟨⟨fun _ => rfl, .refl _⟩, .refl s, rfl, rfl, fun _ => rfl⟩

end Store

/-- Whatever the order of its terminals, a request makes the same of a graph. -/
theorem Served.coincide {agree' : Agreement} (h : Served who r u G ids served n s s')
    (h' : Served who r u G ids' served' n' s s'') (hids : ids.Perm ids') (hs' : s'.Sound agree)
    (hs'' : s''.Sound agree') (hn' : s'.Named) (hn'' : s''.Named) :
    n = n' ∧ s'.Coincides s'' := by
  have hmem : ∀ t, t ∈ served ↔ t ∈ served' := fun t => by
    rw [h.chosen, h'.chosen, hids.mem_iff]
  have hperm : served.Perm served' := (List.perm_ext_iff_of_nodup h.distinct h'.distinct).2 hmem
  have hvacant : ∀ kind, r.vacant kind s served = r.vacant kind s served' :=
    fun kind => hperm.countP_eq _
  have hcount : n = n' := by rw [h.count, h'.count, hvacant]
  obtain ⟨code, hencoded, hslots⟩ := h.written
  obtain ⟨code', hencoded', hslots'⟩ := h'.written
  obtain ⟨hcode, hlabels⟩ := Prod.mk.inj (hencoded.symm.trans hencoded')
  obtain rfl : code = code' := Except.ok.inj hcode
  have hsame : s'.SameSlots s'' := hslots.sameSlots hslots' hmem
  have hvertices : ∀ id, s'.vertex? id = s''.vertex? id := by
    intro id
    by_cases hid : id = r.initial
    · rw [hid, h.initial, h'.initial]
      have hempty : served.isEmpty = served'.isEmpty := by
        rw [Bool.eq_iff_iff, List.isEmpty_iff_length_eq_zero, List.isEmpty_iff_length_eq_zero,
          hperm.length_eq]
      rw [hempty]
    · by_cases hserved : id ∈ served
      · rw [h.terminal id hserved, h'.terminal id ((hmem id).1 hserved)]
      · have hserved' : id ∉ served' := fun hm => hserved ((hmem id).2 hm)
        by_cases hgone : id ∈ ids ∧ Strays G s id
        · rw [vertex?, vertex?, h.gone id hgone.1 hserved hgone.2,
            h'.gone id (hids.mem_iff.1 hgone.1) hserved' hgone.2]
          rfl
        · rw [h.vertex?_kept hid hserved hgone,
            h'.vertex?_kept hid hserved' fun hm => hgone ⟨hids.mem_iff.2 hm.1, hm.2⟩]
  have halike : s'.Alike s'' := ⟨hvertices, hsame.perm_links hs' hs'' hn' hn'' hlabels.symm⟩
  refine ⟨hcount, halike, hsame, ?_, (halike.order_eq hs'.placed hs''.placed).symm, fun item => ?_⟩
  · rw [h.size, h'.size, hvacant, hcount]
  · by_cases hitem : ∃ t ∈ served, item = r.span t
    · obtain ⟨t, ht, rfl⟩ := hitem
      rw [h.scheduled t ht, h'.scheduled t ((hmem t).1 ht), ConnectRequest.ends?,
        (hsame _).1, ConnectRequest.ends?]
    · have hnone : ∀ t ∈ served, item ≠ r.span t := fun t ht he => hitem ⟨t, ht, he⟩
      rw [h.unscheduled item hnone, h'.unscheduled item fun t ht => hnone t ((hmem t).2 ht)]

end Arcbase
