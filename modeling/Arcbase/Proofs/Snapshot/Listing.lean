import Arcbase.Proofs.Snapshot.Filling
set_option autoImplicit false

/-!
# What is staged of the arcs of a snapshot

A snapshot may list several arcs for one slot.  The initial then has the last of them,
while the terminal has the first, and the first is what is scheduled (`Filed`).  Arcs of
different slots do not meddle with each other.
-/

namespace Arcbase

/-- The attributes of a cell, as a snapshot lists them. -/
def Cell.listing (cell : Cell) (l : Labels) : VertexSnapshot :=
  { id := cell.id
    type := cell.data.type.bind l.types.decode?
    manifestation := cell.data.manifestation
    created := cell.data.created
    modified := cell.data.modified
    expires := cell.data.expires
    properties := cell.data.properties
    vector := cell.data.vector }

/-- An arc of a snapshot as it is stored under a code. -/
def ArcSnapshot.stored (a : ArcSnapshot) (code : LabelCode) : StoredArc :=
  { relationship := code, kind := a.kind, value := a.value, forwardOnly := a.forwardOnly }

/-- An arc of a snapshot with the code of its relationship. -/
structure CodedArc where
  arc : ArcSnapshot
  code : LabelCode

namespace CodedArc

/-- The arc as it is stored. -/
def stored (p : CodedArc) : StoredArc := p.arc.stored p.code

/-- Whether the arc goes from one vertex to another, in a slot. -/
def isAt (i t : VertexKey) (relationship : LabelCode) (kind : ArcKind) (p : CodedArc) : Bool :=
  VertexKey.of p.arc.initial = i ∧ VertexKey.of p.arc.terminal = t ∧
    p.stored.inSlot relationship kind = true

/-- The first arc of a slot. -/
def first? (l : List CodedArc) (i t : VertexKey) (relationship : LabelCode) (kind : ArcKind) :
    Option CodedArc := l.find? (isAt i t relationship kind)

/-- The last arc of a slot. -/
def last? (l : List CodedArc) (i t : VertexKey) (relationship : LabelCode) (kind : ArcKind) :
    Option CodedArc := l.reverse.find? (isAt i t relationship kind)

variable {l : List CodedArc} {p : CodedArc} {i t : VertexKey} {relationship : LabelCode}
  {kind : ArcKind}

theorem isAt_iff : p.isAt i t relationship kind = true ↔
    VertexKey.of p.arc.initial = i ∧ VertexKey.of p.arc.terminal = t ∧
      p.stored.inSlot relationship kind = true := by
  simp [isAt]

theorem isAt_self (p : CodedArc) :
    p.isAt (.of p.arc.initial) (.of p.arc.terminal) p.code p.arc.kind = true :=
  isAt_iff.2 ⟨rfl, rfl, Slots.inSlot_self p.stored⟩

theorem last?_concat (l : List CodedArc) (p : CodedArc) :
    last? (l ++ [p]) i t relationship kind =
      if p.isAt i t relationship kind then some p else last? l i t relationship kind := by
  rw [last?, List.reverse_append, List.reverse_singleton, List.singleton_append, List.find?_cons]
  cases p.isAt i t relationship kind <;> rfl

theorem first?_concat (l : List CodedArc) (p : CodedArc) :
    first? (l ++ [p]) i t relationship kind =
      (first? l i t relationship kind).or
        (if p.isAt i t relationship kind then some p else none) := by
  rw [first?, List.find?_append, List.find?_singleton]
  rfl

theorem isSome_first? (l : List CodedArc) : (first? l i t relationship kind).isSome =
    (last? l i t relationship kind).isSome := by
  rw [first?, last?, Bool.eq_iff_iff, List.find?_isSome, List.find?_isSome]
  simp only [List.mem_reverse]

theorem mem_of_first? (h : first? l i t relationship kind = some p) :
    p ∈ l ∧ p.isAt i t relationship kind = true :=
  ⟨List.mem_of_find?_eq_some h, List.find?_some h⟩

theorem mem_of_last? (h : last? l i t relationship kind = some p) :
    p ∈ l ∧ p.isAt i t relationship kind = true :=
  ⟨List.mem_reverse.1 (List.mem_of_find?_eq_some h), List.find?_some h⟩

end CodedArc

/-- The entry that an arc makes in the schedule. -/
def ArcSnapshot.entry? (a : ArcSnapshot) : Option (Expiring × UInt32) :=
  match a.kind, a.value with
  | .timeExpires, .unsigned time => some (.arc a.initial a.relationship a.terminal, time)
  | _, _ => none

theorem ArcSnapshot.kind_of_entry? {a : ArcSnapshot} {entry : Expiring × UInt32}
    (h : a.entry? = some entry) : a.kind = .timeExpires := by
  unfold entry? at h
  split at h
  next hkind _ => exact hkind
  next => cases h

open CodedArc

namespace Staging

/-! ## Staging one arc -/

/-- Whether the slot of an arc is filled at its initial. -/
def filled (g : Staging) (p : CodedArc) : Bool :=
  ((g.data (.of p.arc.initial)).out.get? (.of p.arc.terminal) p.code p.arc.kind).isSome

/-- The data of a staged vertex once an arc is staged. -/
def withArc (g : Staging) (p : CodedArc) (key : VertexKey) (d : VertexData) : VertexData :=
  { d with
    out := if VertexKey.of p.arc.initial = key then
        (d.out.insert (.of p.arc.terminal) p.stored).2
      else d.out
    inbound :=
      if VertexKey.of p.arc.terminal = key ∧ g.filled p = false ∧ p.arc.forwardOnly = false then
        (d.inbound.insert (.of p.arc.initial) p.stored).2
      else d.inbound
    forwardOnlyIn :=
      if VertexKey.of p.arc.terminal = key ∧ g.filled p = false ∧ p.arc.forwardOnly = true then
        d.forwardOnlyIn + 1
      else d.forwardOnlyIn }

/-- Staging an arc changes no attribute. -/
theorem attributes_withArc (g : Staging) (p : CodedArc) (key : VertexKey) (d : VertexData) :
    (g.withArc p key d).type = d.type ∧ (g.withArc p key d).manifestation = d.manifestation ∧
      (g.withArc p key d).created = d.created ∧ (g.withArc p key d).modified = d.modified ∧
      (g.withArc p key d).expires = d.expires ∧ (g.withArc p key d).properties = d.properties ∧
      (g.withArc p key d).vector = d.vector := by
  unfold withArc
  generalize VertexKey.of p.arc.initial = i
  generalize VertexKey.of p.arc.terminal = t
  exact ⟨rfl, rfl, rfl, rfl, rfl, rfl, rfl⟩

theorem get?_addArc (g : Staging) (p : CodedArc) (key : VertexKey) :
    (g.addArc p.arc p.code).cells.get? key =
      (g.cells.get? key).map fun cell => { cell with data := g.withArc p key cell.data } := by
  cases hfilled : g.filled p with
  | true =>
    have hslot : ((g.data (.of p.arc.initial)).out.get? (.of p.arc.terminal) p.code
        p.arc.kind).isSome = true := hfilled
    rw [addArc]
    simp only [hslot, if_true]
    rw [get?_modify]
    refine congrArg (Option.map · _) (funext fun cell => ?_)
    by_cases hi : VertexKey.of p.arc.initial = key <;>
      simp [withArc, hfilled, hi, stored, ArcSnapshot.stored]
  | false =>
    have hslot : ((g.data (.of p.arc.initial)).out.get? (.of p.arc.terminal) p.code
        p.arc.kind).isSome = false := hfilled
    rw [addArc]
    simp only [hslot, Bool.false_eq_true, if_false]
    rw [get?_modify, get?_modify, Option.map_map]
    refine congrArg (Option.map · _) (funext fun cell => ?_)
    by_cases hi : VertexKey.of p.arc.initial = key <;>
      by_cases ht : VertexKey.of p.arc.terminal = key <;>
        cases hf : p.arc.forwardOnly <;>
          simp [withArc, hfilled, hi, ht, hf, stored, ArcSnapshot.stored]

theorem expiring_addArc (g : Staging) (p : CodedArc) :
    (g.addArc p.arc p.code).expiring =
      if g.filled p then g.expiring else g.expiring ++ p.arc.entry?.toList := by
  have hmodify : ∀ (g : Staging) key f, (g.modify key f).expiring = g.expiring := by
    intro g key f
    rw [modify]
    split <;> rfl
  cases hfilled : g.filled p with
  | true =>
    have hslot : ((g.data (.of p.arc.initial)).out.get? (.of p.arc.terminal) p.code
        p.arc.kind).isSome = true := hfilled
    rw [addArc]
    simp only [hslot, if_true]
    exact hmodify ..
  | false =>
    have hslot : ((g.data (.of p.arc.initial)).out.get? (.of p.arc.terminal) p.code
        p.arc.kind).isSome = false := hfilled
    rw [addArc]
    simp only [hslot, Bool.false_eq_true, if_false, hmodify]
    unfold ArcSnapshot.entry?
    cases p.arc.kind with
    | timeExpires => cases p.arc.value <;> simp
    | _ => simp

/-- An arc that nothing stands against has its ends staged, and a value of its kind. -/
theorem contains_of_arcFault? {g : Staging} {a : ArcSnapshot} (h : g.arcFault? a = none) :
    g.contains a.initial = true ∧ g.contains a.terminal = true ∧
      a.kind.allows a.value = true := by
  unfold arcFault? at h
  dsimp only at h
  by_cases hi : (!g.contains a.initial) = true
  · rw [if_pos hi] at h
    cases h
  by_cases ht : (!g.contains a.terminal) = true
  · rw [if_neg hi, if_pos ht] at h
    cases h
  by_cases hvalue : (!a.kind.allows a.value) = true
  · rw [if_neg hi, if_neg ht, if_pos hvalue] at h
    cases h
  exact ⟨by simpa using hi, by simpa using ht, by simpa using hvalue⟩

theorem contains_addArc (g : Staging) (p : CodedArc) (id : String) :
    (g.addArc p.arc p.code).contains id = g.contains id := by
  rw [contains, contains, get?_addArc, Option.any_map]

/-! ## Staging all arcs -/

/-- What the staged vertices have of the arcs that have been staged. -/
structure Filed (l : List CodedArc) (g : Staging) : Prop where
  out : ∀ i cell, g.cells.get? i = some cell → ∀ t relationship kind,
    cell.data.out.get? t relationship kind = (last? l i t relationship kind).map stored
  inbound : ∀ t cell, g.cells.get? t = some cell → ∀ i relationship kind,
    cell.data.inbound.get? i relationship kind =
      ((first? l i t relationship kind).filter fun p => !p.arc.forwardOnly).map stored
  unmixed : ∀ t cell, g.cells.get? t = some cell →
    cell.data.inbound.isEmpty = true ∨ cell.data.forwardOnlyIn = 0
  expiring : ∀ entry, entry ∈ g.expiring ↔ ∃ i t relationship p,
    first? l i t relationship .timeExpires = some p ∧ p.arc.entry? = some entry
  ends : ∀ p ∈ l, g.contains p.arc.initial = true ∧ g.contains p.arc.terminal = true
  allowed : ∀ p ∈ l, p.arc.kind.allows p.arc.value = true

variable {g : Staging} {l : List CodedArc} {p : CodedArc}

theorem filed_nil (harcs : ∀ key cell, g.cells.get? key = some cell → Store.Bare cell.data)
    (hexpiring : g.expiring = []) : Filed [] g := by
  refine ⟨fun i cell hcell t _ _ => ?_, fun t cell hcell i _ _ => ?_, fun t cell hcell => ?_,
    fun entry => ?_, fun _ hp => absurd hp List.not_mem_nil, fun _ hp => absurd hp List.not_mem_nil⟩
  · rw [(harcs i cell hcell).out]
    rfl
  · rw [(harcs t cell hcell).inbound]
    rfl
  · exact .inr (harcs t cell hcell).forwardOnlyIn
  · rw [hexpiring]
    exact ⟨fun h => absurd h List.not_mem_nil, nofun⟩

/-- A slot is filled if an arc has been staged for it. -/
theorem Filed.filled_eq (h : Filed l g) {cell : Cell}
    (hcell : g.cells.get? (.of p.arc.initial) = some cell) :
    g.filled p = (last? l (.of p.arc.initial) (.of p.arc.terminal) p.code p.arc.kind).isSome := by
  have hdata : g.data (.of p.arc.initial) = cell.data := by rw [Staging.data, hcell]; rfl
  rw [filled, hdata, h.out _ cell hcell]
  cases last? l (.of p.arc.initial) (.of p.arc.terminal) p.code p.arc.kind <;> rfl

/-- The slot of the arc is filled if there is a first arc for it. -/
theorem Filed.isSome_first? (h : Filed l g) {cell : Cell}
    (hcell : g.cells.get? (.of p.arc.initial) = some cell) {i t : VertexKey}
    {relationship : LabelCode} {kind : ArcKind} (hat : p.isAt i t relationship kind = true) :
    (first? l i t relationship kind).isSome = g.filled p := by
  obtain ⟨rfl, rfl, hslot⟩ := isAt_iff.1 hat
  obtain ⟨rfl, rfl⟩ := Slots.inSlot_iff.1 hslot
  exact (CodedArc.isSome_first? l).trans (h.filled_eq hcell).symm

theorem Filed.inbound_withArc (h : Filed l g) {celli cell : Cell}
    (hi : g.cells.get? (.of p.arc.initial) = some celli) {i t : VertexKey}
    (hcell : g.cells.get? t = some cell) (relationship : LabelCode) (kind : ArcKind) :
    (g.withArc p t cell.data).inbound.get? i relationship kind =
      ((first? (l ++ [p]) i t relationship kind).filter
        fun p => !p.arc.forwardOnly).map stored := by
  rw [first?_concat, withArc]
  dsimp only
  by_cases hat : p.isAt i t relationship kind = true
  · have hfirst := h.isSome_first? hi hat
    obtain ⟨rfl, rfl, hslot⟩ := isAt_iff.1 hat
    rw [if_pos hat]
    cases hfilled : g.filled p with
    | true =>
      rw [hfilled] at hfirst
      obtain ⟨q, hq⟩ := Option.isSome_iff_exists.1 hfirst
      rw [if_neg (by simp), h.inbound _ cell hcell, hq, Option.some_or]
    | false =>
      rw [hfilled, Option.isSome_eq_false_iff, Option.isNone_iff_eq_none] at hfirst
      rw [hfirst, Option.none_or]
      cases hf : p.arc.forwardOnly with
      | true =>
        rw [if_neg (by simp), h.inbound _ cell hcell, hfirst]
        simp [Option.filter, hf]
      | false =>
        rw [if_pos ⟨rfl, rfl, rfl⟩, ArcIndex.get?_insert, if_pos ⟨rfl, hslot⟩]
        simp [Option.filter, hf]
  · rw [if_neg hat, Option.or_none]
    split
    next hcase =>
      rw [ArcIndex.get?_insert, if_neg fun hs => hat (isAt_iff.2 ⟨hs.1, hcase.1, hs.2⟩),
        h.inbound t cell hcell]
    next => exact h.inbound t cell hcell i relationship kind

theorem Filed.mem_expiring_addArc (h : Filed l g) {celli : Cell}
    (hi : g.cells.get? (.of p.arc.initial) = some celli) (entry : Expiring × UInt32) :
    entry ∈ (g.addArc p.arc p.code).expiring ↔ ∃ i t relationship q,
      first? (l ++ [p]) i t relationship .timeExpires = some q ∧ q.arc.entry? = some entry := by
  have hold : entry ∈ g.expiring → ∃ i t relationship q,
      first? (l ++ [p]) i t relationship .timeExpires = some q ∧ q.arc.entry? = some entry := by
    intro hentry
    obtain ⟨i, t, relationship, q, hq, he⟩ := (h.expiring entry).1 hentry
    exact ⟨i, t, relationship, q, by rw [first?_concat, hq, Option.some_or], he⟩
  have hnew : ∀ {i t relationship q},
      first? (l ++ [p]) i t relationship .timeExpires = some q → q.arc.entry? = some entry →
        entry ∈ g.expiring ∨ g.filled p = false ∧ p.arc.entry? = some entry := by
    intro i t relationship q hq he
    rw [first?_concat] at hq
    cases hfirst : first? l i t relationship .timeExpires with
    | some q' =>
      rw [hfirst, Option.some_or] at hq
      exact .inl ((h.expiring entry).2 ⟨i, t, relationship, q, hfirst.trans hq, he⟩)
    | none =>
      rw [hfirst, Option.none_or, Option.ite_none_right_eq_some] at hq
      obtain ⟨hat, hsome⟩ := hq
      obtain rfl := Option.some.inj hsome
      exact .inr ⟨by rw [← h.isSome_first? hi hat, hfirst]; rfl, he⟩
  rw [expiring_addArc]
  cases hfilled : g.filled p with
  | true =>
    rw [if_pos rfl]
    refine ⟨hold, fun ⟨_, _, _, _, hq, he⟩ => (hnew hq he).resolve_right fun hn => ?_⟩
    exact Bool.noConfusion (hfilled.symm.trans hn.1)
  | false =>
    rw [if_neg Bool.false_ne_true, List.mem_append, Option.mem_toList]
    refine ⟨fun hentry => hentry.elim hold fun he => ?_, fun ⟨_, _, _, _, hq, he⟩ =>
      (hnew hq he).imp_right And.right⟩
    have hat : p.isAt (.of p.arc.initial) (.of p.arc.terminal) p.code .timeExpires = true :=
      ArcSnapshot.kind_of_entry? he ▸ p.isAt_self
    have hfirst := h.isSome_first? hi hat
    rw [hfilled, Option.isSome_eq_false_iff, Option.isNone_iff_eq_none] at hfirst
    exact ⟨_, _, _, p, by rw [first?_concat, hfirst, Option.none_or, if_pos hat], he⟩

theorem Filed.addArc (h : Filed l g) (hfault : g.arcFault? p.arc = none) :
    Filed (l ++ [p]) (g.addArc p.arc p.code) := by
  obtain ⟨⟨celli, hi⟩, cellt, ht, hforward, hregular⟩ := ends_of_arcFault? hfault
  obtain ⟨hinitial, hterminal, hallowed⟩ := contains_of_arcFault? hfault
  have hcells : ∀ {key cell}, (g.addArc p.arc p.code).cells.get? key = some cell →
      ∃ old, g.cells.get? key = some old ∧ cell.data = g.withArc p key old.data := by
    intro key cell hcell
    rw [get?_addArc] at hcell
    obtain ⟨old, hold, rfl⟩ := Option.map_eq_some_iff.1 hcell
    exact ⟨old, hold, rfl⟩
  refine ⟨fun i cell hcell t relationship kind => ?_, fun t cell hcell i relationship kind => ?_,
    fun t cell hcell => ?_, h.mem_expiring_addArc hi, fun q hq => ?_, fun q hq => ?_⟩
  · obtain ⟨old, hold, hdata⟩ := hcells hcell
    rw [hdata, last?_concat, withArc]
    dsimp only
    split
    next hinitial =>
      rw [ArcIndex.get?_insert, h.out i old hold]
      simp only [isAt_iff, hinitial, true_and]
      split <;> rfl
    next hother =>
      rw [h.out i old hold, if_neg fun hat => hother (isAt_iff.1 hat).1]
  · obtain ⟨old, hold, hdata⟩ := hcells hcell
    rw [hdata]
    exact h.inbound_withArc hi hold relationship kind
  · obtain ⟨old, hold, hdata⟩ := hcells hcell
    rw [hdata, withArc]
    by_cases hkey : VertexKey.of p.arc.terminal = t
    · subst hkey
      obtain rfl := Option.some.inj (hold.symm.trans ht)
      cases hf : p.arc.forwardOnly with
      | true => simpa using .inl (hforward hf)
      | false => simpa using .inr (hregular hf)
    · simpa [hkey] using h.unmixed t old hold
  · rw [contains_addArc, contains_addArc]
    rcases List.mem_append.1 hq with hq | hq
    · exact h.ends q hq
    · obtain rfl := List.mem_singleton.1 hq
      exact ⟨hinitial, hterminal⟩
  · rcases List.mem_append.1 hq with hq | hq
    · exact h.allowed q hq
    · obtain rfl := List.mem_singleton.1 hq
      exact hallowed

/-! ## Staging the vertices -/

/-- The staged vertices are those that a snapshot lists. -/
structure Enrolled (vertices : List VertexSnapshot) (l : Labels) (g : Staging) : Prop where
  keyed : ∀ key cell, g.cells.get? key = some cell → cell.key = key ∧ key = .of cell.id
  listed : ∀ v ∈ vertices, ∃ cell, g.cells.get? (.of v.id) = some cell ∧ cell.listing l = v
  only : ∀ key cell, g.cells.get? key = some cell → cell.listing l ∈ vertices
  typed : ∀ key cell, g.cells.get? key = some cell → ∀ code, cell.data.type = some code →
    ∃ label, l.types.decode? code = some label

variable {vertices : List VertexSnapshot} {labels labels' : Labels}

theorem Enrolled.grows (h : Enrolled vertices labels g) (hg : labels.Grows labels') :
    Enrolled vertices labels' g := by
  have hkeeps := hg.types_keeps
  have hsame : ∀ {key cell}, g.cells.get? key = some cell →
      cell.listing labels' = cell.listing labels := by
    intro key cell hcell
    have htype : cell.data.type.bind labels'.types.decode? =
        cell.data.type.bind labels.types.decode? := by
      cases hcode : cell.data.type with
      | none => rfl
      | some code =>
        obtain ⟨label, hlabel⟩ := h.typed key cell hcell code hcode
        exact (hkeeps code label hlabel).trans hlabel.symm
    simp only [Cell.listing, htype]
  refine ⟨h.keyed, fun v hv => ?_, fun key cell hcell => ?_, fun key cell hcell code hcode => ?_⟩
  · obtain ⟨cell, hcell, hlisting⟩ := h.listed v hv
    exact ⟨cell, hcell, (hsame hcell).trans hlisting⟩
  · rw [hsame hcell]
    exact h.only key cell hcell
  · obtain ⟨label, hlabel⟩ := h.typed key cell hcell code hcode
    exact ⟨label, hkeeps code label hlabel⟩

theorem get?_cells_empty (key : VertexKey) (cell : Cell) :
    ({} : Staging).cells.get? key ≠ some cell := (Option.some_ne_none cell).symm

theorem enrolled_nil (labels : Labels) : Enrolled [] labels {} :=
  ⟨fun key cell h => absurd h (get?_cells_empty key cell), fun _ h => absurd h List.not_mem_nil,
    fun key cell h => absurd h (get?_cells_empty key cell),
    fun key cell h => absurd h (get?_cells_empty key cell)⟩

theorem Enrolled.addVertex (h : Enrolled vertices labels g) {v : VertexSnapshot}
    {type : Option LabelCode} (hnew : g.cells.get? (.of v.id) = none)
    (htype : type.bind labels.types.decode? = v.type)
    (htyped : ∀ code, type = some code → ∃ label, labels.types.decode? code = some label) :
    Enrolled (vertices ++ [v]) labels (g.addVertex v type) := by
  have hlisting : (v.toCell type).listing labels = v := by
    simp only [Cell.listing, VertexSnapshot.toCell, htype]
  have hcells : ∀ {key cell}, (g.addVertex v type).cells.get? key = some cell →
      (.of v.id = key ∧ cell = v.toCell type) ∨ g.cells.get? key = some cell := by
    intro key cell hcell
    rw [Staging.addVertex, AssocMap.get?_insert] at hcell
    split at hcell
    next hkey => exact .inl ⟨hkey, (Option.some.inj hcell).symm⟩
    next => exact .inr hcell
  refine ⟨fun key cell hcell => ?_, fun w hw => ?_, fun key cell hcell => ?_,
    fun key cell hcell code hcode => ?_⟩
  · rcases hcells hcell with ⟨rfl, rfl⟩ | hold
    · exact ⟨rfl, rfl⟩
    · exact h.keyed key cell hold
  · rw [Staging.addVertex, AssocMap.get?_insert]
    rcases List.mem_append.1 hw with hw | hw
    · obtain ⟨cell, hcell, hsame⟩ := h.listed w hw
      have hother : VertexKey.of v.id ≠ .of w.id := fun e => by
        rw [e, hcell] at hnew
        cases hnew
      rw [if_neg hother]
      exact ⟨cell, hcell, hsame⟩
    · obtain rfl := List.mem_singleton.1 hw
      rw [if_pos rfl]
      exact ⟨_, rfl, hlisting⟩
  · rcases hcells hcell with ⟨rfl, rfl⟩ | hold
    · exact List.mem_append_right _ (hlisting ▸ List.mem_singleton_self v)
    · exact List.mem_append_left _ (h.only key cell hold)
  · rcases hcells hcell with ⟨rfl, rfl⟩ | hold
    · exact htyped code hcode
    · exact h.typed key cell hold code hcode

theorem listing_withArc (g : Staging) (p : CodedArc) (key : VertexKey) (cell : Cell)
    (l : Labels) : ({ cell with data := g.withArc p key cell.data } : Cell).listing l =
      cell.listing l := by
  obtain ⟨htype, hmanifestation, hcreated, hmodified, hexpires, hproperties, hvector⟩ :=
    attributes_withArc g p key cell.data
  simp only [Cell.listing, htype, hmanifestation, hcreated, hmodified, hexpires, hproperties,
    hvector]

theorem Enrolled.addArc (h : Enrolled vertices labels g) (p : CodedArc) :
    Enrolled vertices labels (g.addArc p.arc p.code) := by
  have hcells : ∀ {key cell}, (g.addArc p.arc p.code).cells.get? key = some cell →
      ∃ old, g.cells.get? key = some old ∧
        cell = { old with data := g.withArc p key old.data } := by
    intro key cell hcell
    rw [get?_addArc] at hcell
    obtain ⟨old, hold, rfl⟩ := Option.map_eq_some_iff.1 hcell
    exact ⟨old, hold, rfl⟩
  refine ⟨fun key cell hcell => ?_, fun v hv => ?_, fun key cell hcell => ?_,
    fun key cell hcell => ?_⟩
  · obtain ⟨old, hold, rfl⟩ := hcells hcell
    exact h.keyed key old hold
  · obtain ⟨cell, hcell, hlisting⟩ := h.listed v hv
    rw [get?_addArc, hcell]
    exact ⟨_, rfl, (listing_withArc ..).trans hlisting⟩
  · obtain ⟨old, hold, rfl⟩ := hcells hcell
    rw [listing_withArc]
    exact h.only key old hold
  · obtain ⟨old, hold, rfl⟩ := hcells hcell
    rw [(attributes_withArc ..).1]
    exact h.typed key old hold

end Staging

/-! ## Staging a whole snapshot -/

/-- The vertices of a snapshot are staged so far, and none of its arcs. -/
structure VerticesStaged (s : Store) (vertices : List VertexSnapshot) (g : Staging) (l : Labels) :
    Prop where
  labels : l.Valid
  named : ∀ v ∈ vertices, s.identifierFault? v.id = none
  enrolled : g.Enrolled vertices l
  bare : ∀ key cell, g.cells.get? key = some cell → Store.Bare cell.data
  expiring : g.expiring = []

/-- The vertices of a snapshot are staged, and its arcs so far. -/
structure ArcsStaged (s : Store) (vertices : List VertexSnapshot) (arcs : List ArcSnapshot)
    (g : Staging) (l : Labels) : Prop where
  labels : l.Valid
  named : ∀ v ∈ vertices, s.identifierFault? v.id = none
  enrolled : g.Enrolled vertices l
  filed : ∃ coded : List CodedArc, coded.map CodedArc.arc = arcs ∧
    (∀ p ∈ coded, l.relationships.decode? p.code = some p.arc.relationship) ∧ g.Filed coded

namespace Action

variable {s : Store} {snapshot : Snapshot} {vertices : List VertexSnapshot}
  {arcs : List ArcSnapshot} {v : VertexSnapshot} {a : ArcSnapshot} {g : Staging} {l l' : Labels}
  {r : Except Error Staging}

theorem VertexStaged.enrolls (h : VertexStaged s v g l r l') (hv : VerticesStaged s vertices g l) :
    Yields r (fun g' => VerticesStaged s (vertices ++ [v]) g' l') True := by
  have hlabels := hv.labels.grows h.grows
  have henrolled := hv.enrolled.grows h.grows
  have hnamed : s.identifierFault? v.id = none →
      ∀ w ∈ vertices ++ [v], s.identifierFault? w.id = none := by
    intro hname w hw
    rcases List.mem_append.1 hw with hw | hw
    · exact hv.named w hw
    · exact List.mem_singleton.1 hw ▸ hname
  have hbare : ∀ type key cell, (g.addVertex v type).cells.get? key = some cell →
      Store.Bare cell.data := by
    intro type key cell hcell
    rw [Staging.addVertex, AssocMap.get?_insert] at hcell
    split at hcell
    · exact Option.some.inj hcell ▸ ⟨rfl, rfl, rfl⟩
    · exact hv.bare key cell hcell
  cases h with
  | untyped hname hnew hwanted =>
    exact ⟨hlabels, hnamed hname, henrolled.addVertex hnew hwanted.symm
      (fun _ h => by cases h), hbare none,
      hv.expiring⟩
  | @typed label code hname hnew hwanted hcoded =>
    have hdecode := hv.labels.decode_type hcoded
    refine ⟨hlabels, hnamed hname, henrolled.addVertex hnew (hdecode.trans hwanted.symm) ?_,
      hbare (some code), hv.expiring⟩
    exact fun code' hcode => ⟨label, Option.some.inj hcode ▸ hdecode⟩
  | _ => trivial

theorem VerticesStaged.arcsStaged (h : VerticesStaged s vertices g l) :
    ArcsStaged s vertices [] g l :=
  ⟨h.labels, h.named, h.enrolled, [], rfl, fun _ hp => absurd hp List.not_mem_nil,
    Staging.filed_nil h.bare h.expiring⟩

theorem ArcStaged.files (h : ArcStaged a g l r l') (ha : ArcsStaged s vertices arcs g l) :
    Yields r (fun g' => ArcsStaged s vertices (arcs ++ [a]) g' l') True := by
  have hgrows := h.grows
  have hlabels := ha.labels.grows hgrows
  have henrolled := ha.enrolled.grows hgrows
  obtain ⟨coded, hmap, hcodes, hfiled⟩ := ha.filed
  cases h with
  | @coded code hsound hcoded =>
    refine ⟨hlabels, ha.named, henrolled.addArc ⟨a, code⟩, coded ++ [⟨a, code⟩], ?_,
      fun p hp => ?_, hfiled.addArc (p := ⟨a, code⟩) hsound⟩
    · rw [List.map_append, hmap]
      rfl
    · rcases List.mem_append.1 hp with hp | hp
      · exact hgrows.keeps _ _ (hcodes p hp)
      · obtain rfl := List.mem_singleton.1 hp
        exact ha.labels.decode_relationship hcoded
  | _ => trivial

/-- What a restore stages is what the snapshot lists. -/
theorem kept_staged (snapshot : Snapshot) (hl : s.labels.Valid) :
    Kept s snapshot (VerticesStaged s) (ArcsStaged s snapshot.vertices) True where
  start := ⟨hl, fun _ hv => absurd hv List.not_mem_nil, Staging.enrolled_nil _,
    fun key cell h => absurd h (Staging.get?_cells_empty key cell), rfl⟩
  vertex _ _ _ _ _ _ _ _ hv h := h.enrolls hv
  middle _ _ h := VerticesStaged.arcsStaged h
  arc _ _ _ _ _ _ _ _ ha h := h.files ha

end Action

end Arcbase
