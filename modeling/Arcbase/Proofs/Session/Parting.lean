import Arcbase.Proofs.Session.Composing
import Arcbase.Proofs.Action.Deleting
import Arcbase.Proofs.Session.Disconnecting
import Arcbase.Proofs.Session.Failing
set_option autoImplicit false

/-!
# Disconnecting two vertices

A disconnect of two vertices goes the same from either end.  The one end finds the arcs among
those that go out and the other among those that come in, but they are the same arcs
(`Aim.hits_reverse`).  What a disconnect leaves does not tell from which end it was made
(`Store.Parted.symm`), and it tells all of the graph (`Store.Parted.coincide`).
-/

namespace Arcbase

open Arcbase.Action Store Guard

variable {agree : Agreement} {G : List Guard} {who : Caller} {s s' s'' : Store} {i j c v : CellId}
  {filter : ArcFilter} {direction : Direction} {key key' : VertexKey} {p : PlacedArc}
  {gone : List PlacedArc} {now : UInt32}

/-! ## The same arcs from either end -/

/-- What a removal is after that is about the arcs of an anchor and one neighbor. -/
abbrev Aim.toward (anchor neighbor : VertexKey) (filter : ArcFilter) (direction : Direction) :
    Aim :=
  ⟨anchor, filter, direction, some neighbor⟩

namespace Aim

/-- An arc between two vertices that is not forward-only is hit from either end. -/
theorem hits_reverse (hregular : p.touches key → p.touches key' → p.arc.forwardOnly = false) :
    (toward key' key filter direction.reverse).hits p =
      (toward key key' filter direction).hits p := by
  have hin : direction.reverse.includesIn = direction.includesOut := by cases direction <;> rfl
  have hforth : p.initial = key → p.terminal = key' → p.arc.forwardOnly = false :=
    fun hi ht => hregular (.inl hi) (.inr ht)
  have hback : p.initial = key' → p.terminal = key → p.arc.forwardOnly = false :=
    fun hi ht => hregular (.inr ht) (.inl hi)
  rw [Bool.eq_iff_iff]
  simp only [hits, outbound, inbound, Direction.includesOut_reverse, hin, Option.all_some,
    Bool.and_eq_true, Bool.or_eq_true, beq_iff_eq, Bool.not_eq_true']
  refine and_congr_right fun _ => ?_
  constructor
  · rintro (⟨⟨hd, hi⟩, ht⟩ | ⟨⟨⟨hd, ht⟩, _⟩, hi⟩)
    · exact .inr ⟨⟨⟨hd, ht.symm⟩, hback hi ht.symm⟩, hi.symm⟩
    · exact .inl ⟨⟨hd, hi.symm⟩, ht.symm⟩
  · rintro (⟨⟨hd, hi⟩, ht⟩ | ⟨⟨⟨hd, ht⟩, _⟩, hi⟩)
    · exact .inr ⟨⟨⟨hd, ht.symm⟩, hforth hi ht.symm⟩, hi.symm⟩
    · exact .inl ⟨⟨hd, hi.symm⟩, ht.symm⟩

/-- What is hit is between the two vertices. -/
theorem touches_of_hits (h : (toward key key' filter direction).hits p = true) :
    p.touches key ∧ p.touches key' := by
  simp only [hits, outbound, inbound, Option.all_some, Bool.and_eq_true, Bool.or_eq_true,
    beq_iff_eq] at h
  rcases h.2 with ⟨⟨_, hi⟩, ht⟩ | ⟨⟨⟨_, ht⟩, _⟩, hi⟩
  · exact ⟨.inl hi, .inr ht.symm⟩
  · exact ⟨.inr ht, .inl hi.symm⟩

/-- At the other end of what is hit is the neighbor. -/
theorem otherEnd_of_hits (h : (toward key key' filter direction).hits p = true) :
    (toward key key' filter direction).otherEnd p = key' := by
  simp only [hits, outbound, inbound, Option.all_some, Bool.and_eq_true, Bool.or_eq_true,
    beq_iff_eq] at h
  rw [otherEnd]
  rcases h.2 with ⟨⟨_, hi⟩, ht⟩ | ⟨⟨⟨_, ht⟩, _⟩, hi⟩
  · rw [if_pos hi]
    exact ht.symm
  · split
    next hloop => exact (ht.trans (hloop.symm.trans hi.symm) : p.terminal = key')
    next => exact hi.symm

end Aim

/-- A vertex that reads the same but for the time of its last change has been touched. -/
theorem VertexSnapshot.eq_touch {v v' : VertexSnapshot} (hmodified : v'.modified = now)
    (hrest : v'.touch 0 = v.touch 0) : v' = v.touch now := by
  subst hmodified
  cases v
  cases v'
  simp only [touch, VertexSnapshot.mk.injEq] at hrest ⊢
  simp [hrest]

namespace Store

/-! ## Two vertices parted -/

/-- One of two vertices between which arcs are gone is left virtual, without arcs and unheld. -/
structure Deserted (G : List Guard) (i j : CellId) (gone : List PlacedArc) (s : Store)
    (v : CellId) : Prop where
  parted : (v = i ∨ v = j) ∧ gone ≠ []
  virtual : (s.data v).manifestation = .virtual
  bare : ∀ p ∈ s.arcs, p ∉ gone → ¬ p.touches (s.keyOf v)
  unheld : onSlot v G = []

theorem Deserted.symm (h : Deserted G i j gone s v) : Deserted G j i gone s v :=
  ⟨h.parted.imp_left Or.symm, h.virtual, h.bare, h.unheld⟩

/-- Arcs between two vertices are gone.  Both have been changed if there were any, and who of
them is deserted is gone too; all else is as it was. -/
structure Parted (now : UInt32) (G : List Guard) (i j : CellId) (gone : List PlacedArc)
    (s s' : Store) : Prop where
  cells : s.Extends s'
  labels : s'.labels = s.labels
  schedule : s'.schedule = s.schedule
  arcs : ∀ p, p ∈ s'.arcs ↔ p ∈ s.arcs ∧ p ∉ gone
  size : s'.size + gone.length = s.size
  live : ∀ v, s'.Live v ↔ s.Live v ∧ ¬ Deserted G i j gone s v
  attributes : ∀ v, s'.Live v → s'.vertexSnapshot v =
    if (v = i ∨ v = j) ∧ gone ≠ [] then (s.vertexSnapshot v).touch now else s.vertexSnapshot v

theorem Parted.symm (h : Parted now G i j gone s s') : Parted now G j i gone s s' := by
  refine ⟨h.cells, h.labels, h.schedule, h.arcs, h.size, fun v => ?_, fun v hv => ?_⟩
  · rw [h.live v]
    exact and_congr_right fun _ => not_congr ⟨.symm, .symm⟩
  · rw [h.attributes v hv]
    exact if_congr (and_congr_left fun _ => or_comm) rfl rfl

/-- What is in a slot is told by the names and the arcs. -/
theorem slot?_eq_some_iff {n : SlotName} {a : StoredArc} (hs : s.Sound agree) :
    s.slot? n = some a ↔
    ∃ i t, s.Denotes n i t a.relationship ∧ a.kind = n.kind ∧
      ⟨s.keyOf i, s.keyOf t, a⟩ ∈ s.arcs := by
  constructor
  · intro ha
    obtain ⟨i, t, code, hnames⟩ := denotes_of_slot? ha
    rw [hnames.slot?] at ha
    obtain ⟨_, rfl, hkind⟩ := ArcIndex.get?_slot ha
    exact ⟨i, t, hnames, hkind, arcAt?_mem_arcs hs (hs.placed.of_lookup hnames.initial).1 ha⟩
  · rintro ⟨i, t, hnames, hkind, hp⟩
    obtain ⟨i', t', hi', ht', hik, htk, ha⟩ := exists_arcAt? hs hp
    obtain rfl := hs.placed.eq_of_key hi' (hs.placed.of_lookup hnames.initial).1 hik
    obtain rfl := hs.placed.eq_of_key ht' (hs.placed.of_lookup hnames.terminal).1 htk
    rw [hnames.slot?, ← hkind]
    exact ha

/-- Where the two sides of every arc agree, the terminal has the regular arcs of the initial. -/
theorem inwardSlot?_eq_some_iff {n : SlotName} {a : StoredArc} (hs : s.Sound .equal) :
    s.inwardSlot? n = some a ↔ s.slot? n = some a ∧ a.forwardOnly = false := by
  have hsides : ∀ {i t code}, s.Denotes n i t code →
      (s.inwardAt? i t code n.kind = some a ↔
        s.arcAt? i t code n.kind = some a ∧ a.forwardOnly = false) := by
    intro i t code hnames
    have hi := (hs.placed.of_lookup hnames.initial).1
    have ht := (hs.placed.of_lookup hnames.terminal).1
    have hmirror := hs.paired.mem_inbound_iff (a := a) hi ht
    obtain ⟨hvalid, _⟩ := hs.paired.valid i hi
    obtain ⟨_, hvalid'⟩ := hs.paired.valid t ht
    constructor
    · intro hb
      obtain ⟨hm, hcode, hkind⟩ := ArcIndex.get?_slot hb
      obtain ⟨hm', hregular⟩ := hmirror.2 hm
      exact ⟨hcode ▸ hkind ▸ (ArcIndex.mem_arcsTo_iff hvalid _ _).1 hm', hregular⟩
    · rintro ⟨ha, hregular⟩
      obtain ⟨hm, hcode, hkind⟩ := ArcIndex.get?_slot ha
      exact hcode ▸ hkind ▸ (ArcIndex.mem_arcsTo_iff hvalid' _ _).1 (hmirror.1 ⟨hm, hregular⟩)
  constructor
  · intro hb
    obtain ⟨i, t, code, hnames⟩ := denotes_of_inwardSlot? hb
    rw [hnames.inwardSlot?, hsides hnames] at hb
    rwa [hnames.slot?]
  · rintro ⟨ha, hregular⟩
    obtain ⟨i, t, code, hnames⟩ := denotes_of_slot? ha
    rw [hnames.slot?] at ha
    rw [hnames.inwardSlot?, hsides hnames]
    exact ⟨ha, hregular⟩

section Coincide

variable (h : Parted now G i j gone s s') (h' : Parted now G i j gone s s'')
  (hs' : s'.Sound .equal) (hs'' : s''.Sound .equal)
include h h' hs' hs''

/-- The same vertices are registered under the same identifiers. -/
theorem Parted.lookup_eq (id : String) : s''.lookup id = s'.lookup id := by
  have hback : ∀ {r r' : Store}, Parted now G i j gone s r → Parted now G i j gone s r' →
      r.Sound .equal → r'.Sound .equal → ∀ {c}, r.lookup id = some c → r'.lookup id = some c := by
    intro r r' h h' hr hr' c hc
    obtain ⟨hlive, hid⟩ := hr.placed.of_lookup hc
    have hlt := ((h.live c).1 hlive).1.1
    rw [← hid, h.cells.id c hlt, ← h'.cells.id c hlt]
    exact hr'.placed.lookup_of_live (((h.live c).trans (h'.live c).symm).1 hlive)
  exact Option.ext fun c => ⟨hback h' h hs'' hs', hback h h' hs' hs''⟩

omit hs' hs'' in
theorem Parted.vertexSnapshot_eq (hv : s'.Live v) : s''.vertexSnapshot v = s'.vertexSnapshot v := by
  rw [h.attributes v hv, h'.attributes v ((h'.live v).2 ((h.live v).1 hv))]

theorem Parted.sameSlots : s'.SameSlots s'' := by
  have hout : ∀ n a, s'.slot? n = some a ↔ s''.slot? n = some a := by
    intro n a
    rw [slot?_eq_some_iff hs', slot?_eq_some_iff hs'']
    refine exists_congr fun c => exists_congr fun d => ?_
    have hnames : s''.Denotes n c d a.relationship ↔ s'.Denotes n c d a.relationship := by
      have hlookup := h.lookup_eq h' hs' hs''
      have hlabels : s''.labels = s'.labels := h'.labels.trans h.labels.symm
      constructor
      · exact fun hn => ⟨(hlookup _).symm.trans hn.initial, (hlookup _).symm.trans hn.terminal,
          hlabels ▸ hn.code⟩
      · exact fun hn => ⟨(hlookup _).trans hn.initial, (hlookup _).trans hn.terminal,
          hlabels ▸ hn.code⟩
    rw [hnames]
    refine and_congr_right fun hn => and_congr_right fun _ => ?_
    have hkey : ∀ {id v}, s'.lookup id = some v → s''.keyOf v = s'.keyOf v := by
      intro id v hv
      have hlt := ((h.live v).1 (hs'.placed.of_lookup hv).1).1.1
      exact (h'.cells.key v hlt).trans (h.cells.key v hlt).symm
    rw [hkey hn.initial, hkey hn.terminal, h.arcs, h'.arcs]
  refine sameSlots_of hout fun n a => ?_
  rw [inwardSlot?_eq_some_iff hs', inwardSlot?_eq_some_iff hs'', hout]

/-- Two graphs in which the same arcs between two vertices are gone coincide. -/
theorem Parted.coincide (hn' : s'.Named) (hn'' : s''.Named) : s'.Coincides s'' := by
  have hsame := h.sameSlots h' hs' hs''
  have hlabels : s''.labels = s'.labels := h'.labels.trans h.labels.symm
  have hvertices : ∀ id, s'.vertex? id = s''.vertex? id := by
    intro id
    rw [vertex?, vertex?, h.lookup_eq h' hs' hs'']
    cases hv : s'.lookup id with
    | none => rfl
    | some v =>
      exact congrArg some (h.vertexSnapshot_eq h' (hs'.placed.of_lookup hv).1).symm
  have halike : s'.Alike s'' := ⟨hvertices, hsame.perm_links hs' hs'' hn' hn'' hlabels⟩
  refine ⟨halike, hsame, ?_, (halike.order_eq hs'.placed hs''.placed).symm, fun item => ?_⟩
  · have hsize := h.size
    have hsize' := h'.size
    omega
  · rw [h'.schedule, h.schedule]

end Coincide

/-! ## One disconnect -/

/-- A vertex that a thread can hold does not stand in the way of a removal. -/
theorem obstructed_of_canHold {me : Thread} (hp : s.Placed) (hj : s.Live j)
    (hhold : s.CanHold me j) (i : CellId) : s.obstructed me i (s.keyOf j) = false := by
  have hlookup : s.lookupKey (s.keyOf j) = some j := hp.lookup_key hj
  rw [obstructed, hlookup, Option.any_some, hhold.2, Bool.not_true, Bool.and_false]

/-- Nothing is left of what a removal is after toward a vertex that its thread can hold. -/
theorem taken_toward {me : Thread} (hp : s.Placed) (hj : s.Live j) (hhold : s.CanHold me j)
    (i : CellId) (filter : ArcFilter) (direction : Direction) :
    s.stuck me i (.toward (s.keyOf i) (s.keyOf j) filter direction) = [] ∧
      s.taken me i (.toward (s.keyOf i) (s.keyOf j) filter direction) =
        s.caught (.toward (s.keyOf i) (s.keyOf j) filter direction) := by
  have hfree : ∀ p ∈ s.caught (.toward (s.keyOf i) (s.keyOf j) filter direction),
      s.obstructed me i (Aim.otherEnd (.toward (s.keyOf i) (s.keyOf j) filter direction) p) =
        false := by
    intro p hm
    rw [Aim.otherEnd_of_hits (List.mem_filter.1 hm).2]
    exact obstructed_of_canHold hp hj hhold i
  refine ⟨List.filter_eq_nil_iff.2 fun p hm => ?_, List.filter_eq_self.2 fun p hm => ?_⟩
  · rw [hfree p hm]
    exact Bool.false_ne_true
  · rw [hfree p hm]
    rfl

/-- A removal that is after nothing has no groups. -/
theorem groups_eq_nil (hs : s.Sound .equal) (hc : s.Live c) {toward : Option VertexKey}
    (h : s.caught ⟨s.keyOf c, filter, direction, toward⟩ = []) :
    s.groups c filter direction toward = [] := by
  refine List.eq_nil_iff_forall_not_mem.2 fun (key, arcs) hm => ?_
  obtain ⟨⟨seen, hseen, _⟩, _⟩ := mem_groups_iff.1 hm
  obtain ⟨hp, hhits⟩ := (mem_aimedAt_sighted_iff hs hc).2 ⟨seen, hseen, rfl⟩
  have hcaught := List.mem_filter.2 ⟨hp, hhits⟩
  rw [show s.arcs.filter _ = [] from h] at hcaught
  exact List.not_mem_nil hcaught

/-- What is read of a vertex but for the time of its last change. -/
theorem slotless_listed (id : String) (types : LabelTable) :
    Slotless fun d => (d.listed id types).touch 0 :=
  ⟨fun _ _ => rfl, fun _ _ => rfl, fun _ _ => rfl, fun _ _ => rfl, fun _ _ => rfl⟩

/-- An arc between two vertices touches no other one. -/
theorem touches_cases (hp : s.Placed) (hi : s.Live i) (hj : s.Live j) (hne : i ≠ j)
    (hv : s.Live v) (hti : p.touches (s.keyOf i)) (htj : p.touches (s.keyOf j))
    (htv : p.touches (s.keyOf v)) : v = i ∨ v = j := by
  have hkeys : s.keyOf i ≠ s.keyOf j := fun e => hne (hp.eq_of_key hi hj e)
  have hsame : s.keyOf v = s.keyOf i ∨ s.keyOf v = s.keyOf j := by
    rcases hti with hti | hti <;> rcases htj with htj | htj
    · exact absurd (hti.symm.trans htj) hkeys
    · exact htv.imp (fun e => e.symm.trans hti) fun e => e.symm.trans htj
    · exact (htv.imp (fun e => e.symm.trans htj) fun e => e.symm.trans hti).symm
    · exact absurd (hti.symm.trans htj) hkeys
  exact hsame.imp (hp.eq_of_key hv hi) (hp.eq_of_key hv hj)

section Walk

variable {rm : Removal} (hs : s.Sound .equal) (hi : s.Live i) (hj : s.Live j) (hne : i ≠ j)
  (hhold : s.obstructed who.thread i (s.keyOf j) = false)
  (walk : Walked who G i filter direction (some (s.keyOf j)) rm s s')
include hs hi hj hne hhold walk

omit hhold in
/-- The walk leaves all vertices alone but the two that it parts. -/
theorem data_eq_of_walked (hv : s.Live v) (hvi : v ≠ i) (hvj : v ≠ j) : s'.data v = s.data v := by
  refine Steps.data_eq walk.run.severed.steps ?_ hv.1
  rintro (hvi' | hfreed)
  · exact hvi hvi'
  · obtain ⟨_, p, hp, ht⟩ := (mem_freed_iff hs hi hv).1 hfreed
    have hends := Aim.touches_of_hits (mem_taken_iff.1 hp).2.1
    exact (touches_cases hs.placed hi hj hne hv hends.1 hends.2 ht).elim hvi hvj

/-- It stamps these two if it takes any arcs off. -/
theorem modified_eq_of_walked
    (hsome : s.caught (.toward (s.keyOf i) (s.keyOf j) filter direction) ≠ [])
    (hv : v = i ∨ v = j) (hlive : s'.Live v) : (s'.data v).modified = who.now := by
  obtain ⟨p, hm⟩ := List.exists_mem_of_ne_nil _ hsome
  obtain ⟨hp, hhits⟩ := List.mem_filter.1 hm
  have hv₀ : s.Live v := hv.elim (fun e => e ▸ hi) fun e => e ▸ hj
  have hunlooped : (some (s.keyOf j)).all (· == s.keyOf i) = true → False := by
    intro he
    exact hne (hs.placed.eq_of_key hi hj (beq_iff_eq.1 he).symm)
  have hstamped := walk.stamps (fun _ => False) (fun _ => False) hunlooped
  refine (hstamped.stamp v hv₀ hlive).resolve_right fun hunstamped => ?_
  obtain ⟨m, hlm, hkm, hfound⟩ := (mem_arcs_iff_arcIn? hs).1 hp
  have hends := Aim.touches_of_hits hhits
  have hgone : s'.arcIn? ⟨m, p.terminal, p.arc.relationship, p.arc.kind⟩ = none := by
    rw [walk.run.severed.arcs]
    refine if_pos ((mem_places_iff hs hi filter direction _
      (fun key => !s.obstructed who.thread i key) hlm hkm ?_).2 ⟨hhits, ?_⟩)
    · exact (ArcIndex.mem_arcsTo_iff (hs.paired.valid m hlm).1 _ _).2 hfound
    · rw [Aim.otherEnd_of_hits hhits, hhold]
      rfl
  have htouches : p.touches (s.keyOf v) := hv.elim (fun e => e ▸ hends.1) fun e => e ▸ hends.2
  have haround : s.Around v ⟨m, p.terminal, p.arc.relationship, p.arc.kind⟩ := by
    rcases htouches with hinitial | hterminal
    · exact .inl (hs.placed.eq_of_key hlm hv₀ (hkm.trans hinitial))
    · exact .inr hterminal
  rcases hunstamped.arcs _ haround with hsame | ⟨hfalse, _⟩
  · exact nomatch hgone.symm.trans (hsame.trans hfound)
  · exact hfalse

/-- It touches them, and nothing else. -/
theorem vertexSnapshot_of_walked
    (hsome : s.caught (.toward (s.keyOf i) (s.keyOf j) filter direction) ≠ []) (hv : s.Live v)
    (hlive : s'.Live v) : s'.vertexSnapshot v =
      if v = i ∨ v = j then (s.vertexSnapshot v).touch who.now else s.vertexSnapshot v := by
  have hid : (s'.cell v).id = (s.cell v).id := walk.run.severed.extends.id v hv.1
  have htypes : s'.labels.types = s.labels.types := congrArg Labels.types walk.dates.labels
  rw [vertexSnapshot_eq, vertexSnapshot_eq, hid, htypes]
  split
  next hends =>
    have hmodified := modified_eq_of_walked hs hi hj hne hhold walk hsome hends hlive
    have hlisted := (walk.readings (slotless_listed (s.cell v).id s.labels.types)).reading v
    exact VertexSnapshot.eq_touch hmodified hlisted
  next hother =>
    rw [data_eq_of_walked hs hi hj hne walk hv (fun e => hother (.inl e)) fun e => hother (.inr e)]

end Walk

/-- The vertices that a removal leaves are those that it does not orphan. -/
theorem Disconnected.live_iff {me : Thread} {aim : Aim} {r : Except Error Nat}
    (h : Disconnected me G c aim s s' r) (hs : s.Placed) (hs' : s'.Placed) :
    s'.Live v ↔ s.Live v ∧ ¬ Orphaned me G c aim s s' v := by
  constructor
  · intro hv
    obtain ⟨hfound, hkept⟩ := (h.vertices (s'.keyOf v) v).1 (hs'.lookup_key hv)
    exact ⟨hs.live_of_lookup hfound, hkept⟩
  · rintro ⟨hv, hkept⟩
    exact hs'.live_of_lookup ((h.vertices _ v).2 ⟨hs.lookup_key hv, hkept⟩)

/-- Of two vertices that have been parted those are orphaned who are deserted. -/
theorem orphaned_iff (hp : s.Placed) (hi : s.Live i) (hj : s.Live j) (hne : i ≠ j)
    (hhold : s.CanHold who.thread j) (hopens : ∀ v, v = i ∨ v = j → Open G who.thread v)
    (hsome : s.caught (.toward (s.keyOf i) (s.keyOf j) filter direction) ≠ [])
    (harcs : ∀ p, p ∈ s'.arcs ↔
      p ∈ s.arcs ∧ p ∉ s.caught (.toward (s.keyOf i) (s.keyOf j) filter direction))
    (hv : s.Live v) :
    Orphaned who.thread G i (.toward (s.keyOf i) (s.keyOf j) filter direction) s s' v ↔
      Deserted G i j (s.caught (.toward (s.keyOf i) (s.keyOf j) filter direction)) s v := by
  constructor
  · rintro ⟨touched, virtual, bare, unheld⟩
    have hends : v = i ∨ v = j := by
      rcases touched with hvi | ⟨p, hm, ht⟩
      · exact .inl hvi
      · have hbetween := Aim.touches_of_hits (mem_taken_iff.1 hm).2.1
        exact touches_cases hp hi hj hne hv hbetween.1 hbetween.2 ht
    exact ⟨⟨hends, hsome⟩, virtual, fun p hm hkept => bare p ((harcs p).2 ⟨hm, hkept⟩),
      (onSlot_eq_nil_iff (hopens v hends)).2 unheld⟩
  · rintro ⟨⟨hends, _⟩, virtual, bare, unheld⟩
    refine ⟨hends.imp_right ?_, virtual, fun p hm => bare p ((harcs p).1 hm).1 ((harcs p).1 hm).2,
      (onSlot_eq_nil_iff (hopens v hends)).1 unheld⟩
    -- an arc that has gone touched the neighbor
    rintro rfl
    obtain ⟨p, hm⟩ := List.exists_mem_of_ne_nil _ hsome
    refine ⟨p, ?_, (Aim.touches_of_hits (List.mem_filter.1 hm).2).2⟩
    rwa [(taken_toward hp hj hhold i filter direction).2]

section Run

variable {anchor : String} {g : Guard} {locks : LockTable} {rm : Removal} (hs : s.Sound .equal)
  (hg : s.Guarded G) (held : HeldRun who anchor s i g locks)
include hs hg held

/-- A disconnect that is after nothing leaves the graph as it was. -/
theorem parted_of_idle (hstray : ¬ Stray G s i) (j : CellId) :
    s.Parted who.now G i j [] (({ s with locks } : Store).drop g) := by
  obtain ⟨hs₀, hg₀⟩ := held.sound hs hg
  have hw := held.writer hg
  have hdates : SameDates { s with locks } (({ s with locks } : Store).drop g) :=
    sameDates_drop _ g
  have hextends : Extends { s with locks } (({ s with locks } : Store).drop g) :=
    Steps.extends (drop_spec (W := fun _ => True) hg₀ fun _ => trivial).1
  have harcs : ∀ p, p ∈ (({ s with locks } : Store).drop g).arcs ↔ p ∈ s.arcs := fun p =>
    mem_arcs_drop hs₀ hg₀ hw
  have hsize : (({ s with locks } : Store).drop g).size = s.size := size_drop _ g
  refine ⟨⟨hextends.count, hextends.id, hextends.key⟩, hdates.labels, hdates.schedule,
    fun p => ?_, hsize, fun v => ?_, fun v hv => ?_⟩
  · simp [harcs]
  · rw [live_drop_iff hg₀ hw]
    refine and_congr Iff.rfl (iff_of_true ?_ fun h => h.parted.2 rfl)
    rintro ⟨hslot, hunheld, hvirtual, hbare⟩
    obtain rfl : i = v := held.slot.symm.trans hslot
    exact hstray ⟨hvirtual, hbare, hunheld⟩
  · rw [if_neg fun h => h.2 rfl]
    exact vertexSnapshot_of_cell (cell_drop hg₀ hw hv) (congrArg Labels.types hdates.labels)

/-- A disconnect that is after arcs between two vertices parts them. -/
theorem parted_of_walked (hj : s.Live j) (hne : i ≠ j) (hhold : s.CanHold who.thread j)
    (walk : Walked who (g :: G) i filter direction (some (s.keyOf j)) rm { s with locks } s')
    (hsome : s.caught (.toward (s.keyOf i) (s.keyOf j) filter direction) ≠ []) :
    s.Parted who.now G i j (s.caught (.toward (s.keyOf i) (s.keyOf j) filter direction))
      ((s'.less rm.removed).drop g) := by
  obtain ⟨hs₀, hg₀⟩ := held.sound hs hg
  obtain ⟨hw, hopen⟩ := LockTable.open_of_acquire hg.accounts held.acquired
  have hi := (held.live hs).1
  have hclear : obstructed { s with locks } who.thread i (s.keyOf j) = false := by
    rw [obstructed_acquire hs.placed hg hi held.acquired]
    exact obstructed_of_canHold hs.placed hj hhold i
  have hopens : ∀ v, v = i ∨ v = j → Open G who.thread v := by
    rintro v (rfl | rfl)
    · exact hopen
    · obtain ⟨g', locks', hacq⟩ := hhold.acquired
      exact (LockTable.open_of_acquire hg.accounts hacq).2
  obtain ⟨_, htaken⟩ := taken_toward hs.placed hj hhold i filter direction
  have hdone := (disconnected_of_severRun hs₀ hi hw held.slot hopen walk.run).of_acquire hs.placed
    hg hi held.acquired
  have hs₁ : (s'.less rm.removed).Sound .equal := Steps.sound walk.run.severed.steps hs₀
  have hg₁ : (s'.less rm.removed).Guarded (g :: G) := walk.run.severed.guarded.less rm.removed
  have hs₂ : ((s'.less rm.removed).drop g).Sound .equal := sound_drop hs₁ g
  have hextends : Extends { s with locks } ((s'.less rm.removed).drop g) :=
    extends_drop_severRun walk.run
  have hless : SameDates s' (s'.less rm.removed) := sameDates_of_cells rfl rfl rfl
  have hdates : SameDates { s with locks } ((s'.less rm.removed).drop g) :=
    (walk.dates.trans hless).trans (sameDates_drop _ g)
  have harcs : ∀ p, p ∈ ((s'.less rm.removed).drop g).arcs ↔
      p ∈ s.arcs ∧ p ∉ s.caught (.toward (s.keyOf i) (s.keyOf j) filter direction) := by
    intro p
    rw [← htaken, hdone.arcs.mem_iff, List.mem_filter, decide_eq_true_eq]
    rfl
  refine ⟨⟨hextends.count, hextends.id, hextends.key⟩, hdates.labels, hdates.schedule, harcs, ?_,
    fun v => ?_, fun v hv => ?_⟩
  · rw [← htaken]
    exact hdone.size
  · rw [hdone.live_iff hs.placed hs₂.placed]
    exact and_congr_right fun hv => not_congr
      (orphaned_iff hs.placed hi hj hne hhold hopens hsome harcs hv)
  · have hv₁ : s'.Live v := ((live_drop_iff hg₁ hw).1 hv).1
    have hv₀ : s.Live v := ((hdone.live_iff hs.placed hs₂.placed).1 hv).1
    have hdropped : ((s'.less rm.removed).drop g).vertexSnapshot v = s'.vertexSnapshot v :=
      vertexSnapshot_of_cell (cell_drop hg₁ hw hv)
        (congrArg Labels.types (sameDates_drop (s'.less rm.removed) g).labels)
    rw [hdropped, vertexSnapshot_of_walked hs₀ hi hj hne hclear walk hsome hv₀ hv₁]
    exact if_congr (and_iff_left hsome).symm rfl rfl

end Run

/-- A disconnect of two vertices that its thread can hold parts them, and tells how many arcs
are gone. -/
theorem parted_disconnect {a b : String} {probe : Probe} (hs : s.Sound .equal) (hg : s.Guarded G)
    (hprobe : s.filterOf probe = .ok filter) (ha : s.lookup a = some i) (hb : s.lookup b = some j)
    (hne : i ≠ j) (hstray : ¬ Stray G s i) (hhold : s.CanHold who.thread i)
    (hhold' : s.CanHold who.thread j) :
    ∃ s', (disconnect who a probe (some b)).run s =
        (.ok (s.caught (.toward (s.keyOf i) (s.keyOf j) filter probe.direction)).length, s') ∧
      s.Parted who.now G i j
        (s.caught (.toward (s.keyOf i) (s.keyOf j) filter probe.direction)) s' := by
  obtain ⟨g, locks, hacq⟩ := hhold.acquired
  have held : HeldRun who a s i g locks := ⟨hhold.1, ha, hacq⟩
  obtain ⟨hs₀, hg₀⟩ := held.sound hs hg
  have hi := (hs.placed.of_lookup ha).1
  have hj := (hs.placed.of_lookup hb).1
  have hwanted : (some b).mapM s.lookup = some (some j) := by simp [hb]
  obtain ⟨r, s₁, hsever, hrun⟩ :=
    run_disconnect_of_ok hprobe ha hwanted held.writable held.acquired
  by_cases hnone : s.caught (.toward (s.keyOf i) (s.keyOf j) filter probe.direction) = []
  · have hgroups : groups { s with locks } i filter probe.direction (some (s.keyOf j)) = [] :=
      groups_eq_nil hs₀ hi hnone
    have hidle : (sever who i filter probe.direction (some (s.keyOf j))).run { s with locks } =
        (.ok 0, { s with locks }) := by
      rw [sever, run_ofFun]
      simp only [hgroups]
      rfl
    obtain ⟨rfl, rfl⟩ := Prod.mk.inj (hidle.symm.trans hsever)
    rw [hnone]
    exact ⟨_, hrun, parted_of_idle hs hg held hstray j⟩
  · obtain ⟨rm, s₂, rfl, rfl, walk⟩ := run_walk hs₀ hg₀ hi hsever
    obtain ⟨hwriter, hopen⟩ := LockTable.open_of_acquire hg.accounts held.acquired
    have hdone := (disconnected_of_severRun hs₀ hi hwriter held.slot hopen walk.run).of_acquire
      hs.placed hg hi held.acquired
    have hstuck := (taken_toward hs.placed hj hhold' i filter probe.direction).1
    refine ⟨_, ?_, parted_of_walked hs hg held hj hne hhold' walk hnone⟩
    rw [hrun, hdone.complete hstuck]
    rfl

/-- From either end a removal is after the same arcs, if none between the ends is forward-only. -/
theorem caught_reverse
    (hregular : ∀ p ∈ s.arcs, p.touches key → p.touches key' → p.arc.forwardOnly = false) :
    s.caught (.toward key' key filter direction.reverse) =
      s.caught (.toward key key' filter direction) :=
  List.filter_congr fun p hp => Aim.hits_reverse (hregular p hp)

/-- So a disconnect from the other end, its probe reversed, has the same effect. -/
theorem parted_disconnect_reverse {a b : String} {probe : Probe} (hs : s.Sound .equal)
    (hg : s.Guarded G) (hprobe : s.filterOf probe = .ok filter) (ha : s.lookup a = some i)
    (hb : s.lookup b = some j) (hne : i ≠ j) (hstray : ¬ Stray G s j)
    (hhold : s.CanHold who.thread i) (hhold' : s.CanHold who.thread j)
    (hregular : ∀ p ∈ s.arcs, p.touches (s.keyOf i) → p.touches (s.keyOf j) →
      p.arc.forwardOnly = false) :
    ∃ s', (disconnect who b probe.reverse (some a)).run s =
        (.ok (s.caught (.toward (s.keyOf i) (s.keyOf j) filter probe.direction)).length, s') ∧
      s.Parted who.now G i j
        (s.caught (.toward (s.keyOf i) (s.keyOf j) filter probe.direction)) s' := by
  have hreverse : s.filterOf probe.reverse = .ok filter := hprobe
  obtain ⟨s', hrun, hparted⟩ :=
    parted_disconnect hs hg hreverse hb ha hne.symm hstray hhold' hhold
  have hcaught : s.caught (.toward (s.keyOf j) (s.keyOf i) filter probe.reverse.direction) =
      s.caught (.toward (s.keyOf i) (s.keyOf j) filter probe.direction) := caught_reverse hregular
  rw [hcaught] at hrun hparted
  exact ⟨s', hrun, hparted.symm⟩

end Store

/-! ## In a session -/

variable {σ : Session} {a b : String}

theorem Session.ask_of_run {α : Type} {r : Request α} {answer : Except Error α}
    (hrun : (r.action who).run σ.store = (answer, s')) :
    σ.ask who r = (answer, { σ with store := s' }) := by
  rw [Session.ask, Session.perform, hrun]

/-- Two vertices that a thread can hold, and between which no arc is forward-only, are
disconnected alike from either end: as many arcs go, those between them that the probe
matches, and the graph comes out the same. -/
theorem disconnect_from_either_end (h : Arises Operation.Live σ) (who : Caller) (probe : Probe)
    (ha : σ.store.lookup a = some i) (hb : σ.store.lookup b = some j) (hne : a ≠ b)
    (hhold : σ.store.CanHold who.thread i) (hhold' : σ.store.CanHold who.thread j)
    (hregular : ∀ p ∈ σ.store.arcs, p.touches (σ.store.keyOf i) → p.touches (σ.store.keyOf j) →
      p.arc.forwardOnly = false) :
    let forth := σ.ask who (.disconnect a probe (some b))
    let back := σ.ask who (.disconnect b probe.reverse (some a))
    forth.1 = back.1 ∧
      (∀ filter, σ.store.filterOf probe = .ok filter → forth.1 = .ok (σ.store.caught
        (.toward (σ.store.keyOf i) (σ.store.keyOf j) filter probe.direction)).length) ∧
      forth.2.store.Coincides back.2.store := by
  obtain ⟨hs, hg, _⟩ := h.reach.sound_live
  have hi := (hs.placed.of_lookup ha).1
  have hj := (hs.placed.of_lookup hb).1
  have hcells : i ≠ j := by
    rintro rfl
    exact hne ((hs.placed.of_lookup ha).2.symm.trans (hs.placed.of_lookup hb).2)
  have hafter : ∀ id p other, Arises Operation.Live (σ.ask who (.disconnect id p other)).2 :=
    fun id p other => h.step who (.ask (.disconnect id p other)) rfl
  have hforth := hafter a probe (some b)
  have hback := hafter b probe.reverse (some a)
  cases hprobe : σ.store.filterOf probe with
  | error e =>
    have hreverse : σ.store.filterOf probe.reverse = .error e := hprobe
    have hask : σ.ask who (.disconnect a probe (some b)) = (.error e, σ) :=
      Session.ask_of_run (run_disconnect_of_unfit (some b) hhold.1 hprobe)
    have hask' : σ.ask who (.disconnect b probe.reverse (some a)) = (.error e, σ) :=
      Session.ask_of_run (run_disconnect_of_unfit (some a) hhold.1 hreverse)
    dsimp only
    rw [hask, hask']
    exact ⟨rfl, fun _ hok => (nomatch hok), .refl _⟩
  | ok filter =>
    obtain ⟨s', hrun, hparted⟩ := parted_disconnect hs hg hprobe ha hb hcells
      (not_stray_of_arises h hi) hhold hhold'
    obtain ⟨s'', hrun', hparted'⟩ := parted_disconnect_reverse hs hg hprobe ha hb hcells
      (not_stray_of_arises h hj) hhold hhold' hregular
    have hask := Session.ask_of_run (r := .disconnect a probe (some b)) hrun
    have hask' := Session.ask_of_run (r := .disconnect b probe.reverse (some a)) hrun'
    rw [hask] at hforth
    rw [hask'] at hback
    dsimp only
    rw [hask, hask']
    refine ⟨rfl, fun _ hok => ?_, hparted.coincide hparted' hforth.reach.sound_live.store
      hback.reach.sound_live.store hforth.lawful.named hback.lawful.named⟩
    cases hok
    rfl

/-- One vertex that is real and one that is not, with an arc between them. -/
def pairOfEnds : Session := (linkTo "b").after ⟨⟨"m"⟩, 5⟩ (.new {} .new)

theorem arises_pairOfEnds : Arises Operation.Live pairOfEnds :=
  (Arises.start {} 65535 65535 .refl).step ⟨⟨"m"⟩, 5⟩ (linkTo "b") rfl

/-- The arc goes, and with it the end that is not real, be it the neighbor or the anchor. -/
theorem disconnect_from_either_end_pairOfEnds :
    let forth := pairOfEnds.ask ⟨⟨"m"⟩, 7⟩ (.disconnect "a" (.along "r" .out) (some "b"))
    let back := pairOfEnds.ask ⟨⟨"m"⟩, 7⟩ (.disconnect "b" (.along "r" .inward) (some "a"))
    forth.1 = .ok 1 ∧ back.1 = .ok 1 ∧ forth.2.store.Coincides back.2.store := by
  obtain ⟨ha, hb, hhold, hhold', hall, hone⟩ :
      pairOfEnds.store.lookup "a" = some 0 ∧ pairOfEnds.store.lookup "b" = some 1 ∧
      pairOfEnds.store.CanHold ⟨"m"⟩ 0 ∧ pairOfEnds.store.CanHold ⟨"m"⟩ 1 ∧
      (pairOfEnds.store.arcs.all fun p => !p.arc.forwardOnly) = true ∧
      (pairOfEnds.ask ⟨⟨"m"⟩, 7⟩ (.disconnect "a" (.along "r" .out) (some "b"))).1 = .ok 1 := by
    set_option maxRecDepth 10000 in
    cbv
  have hregular : ∀ p ∈ pairOfEnds.store.arcs, p.arc.forwardOnly = false := fun p hp => by
    simpa using List.all_eq_true.1 hall p hp
  have hends := disconnect_from_either_end arises_pairOfEnds ⟨⟨"m"⟩, 7⟩ (.along "r" .out) ha hb
    (by decide) hhold hhold' fun p hp _ _ => hregular p hp
  have hreverse : (Probe.along "r" .out).reverse = .along "r" .inward := rfl
  rw [hreverse] at hends
  obtain ⟨hsame, _, hcoincide⟩ := hends
  exact ⟨hone, hsame.symm.trans hone, hcoincide⟩

end Arcbase
