import Arcbase.Proofs.Action.Answering
import Arcbase.Proofs.Action.Naming
import Arcbase.Proofs.Query.Paths
import Arcbase.Proofs.Store.Alike
import Arcbase.Store.Reading
import Arcbase.Store.Snapshot
set_option autoImplicit false

/-!
# Graphs under other label tables

A graph is legible under other tables than its own if these know all labels that it uses, by
the same codes (`LegibleUnder`).  Whatever is read of the graph is then the same under either
tables: the labels that are shown of its vertices and arcs, and the arcs and vertices that a
probe or a condition selects by a label.  A label that is new in the other tables selects
nothing, as it did while it had no code.

Two actions, one on a graph under its own tables and one on the same graph under others, go
*alongside* each other if they change nothing but the locks, and these alike, and if both fail
in the same way or succeed with values that stand in a relation (`Alongside`).  On a graph
that is legible, reading goes alongside itself: look-ups (`alongside_vertexInfo`,
`alongside_arcValue`, `alongside_adjacent`, `alongside_degree`) and snapshots
(`alongside_snapshot`).
-/

namespace Arcbase

/-- Where a code has its label already, a label is encoded by that code in larger tables just
if it was before. -/
theorem LabelTable.Keeps.lookup?_iff {t t' : LabelTable} {code : LabelCode} (h : t.Keeps t')
    (ht : t.Valid) (ht' : t'.Valid) (hcode : ∃ known, t.decode? code = some known)
    (label : String) : t'.lookup? label = some code ↔ t.lookup? label = some code := by
  obtain ⟨known, hknown⟩ := hcode
  rw [ht', ht, hknown, h code known hknown]

/-- What is seen on some sides of a vertex is stored with it. -/
theorem VertexData.stored_of_mem_arcsOn {d : VertexData} {direction : Direction} {x : SeenArc}
    (hx : x ∈ d.arcsOn direction) :
    (x.1, x.2.2) ∈ d.out.entries ∨ (x.1, x.2.2) ∈ d.inbound.entries := by
  rcases List.mem_append.1 hx with hx | hx
  · split at hx
    · obtain ⟨e, he, rfl⟩ := List.mem_map.1 hx
      exact .inl he
    · cases hx
  · split at hx
    · obtain ⟨e, he, rfl⟩ := List.mem_map.1 hx
      exact .inr he
    · cases hx

namespace Store

/-- Every arc that a registered vertex stores, on either side, has its label. -/
def ArcsNamed (s : Store) : Prop :=
  ∀ c, s.Live c → ∀ n a, (n, a) ∈ (s.data c).out.entries ∨ (n, a) ∈ (s.data c).inbound.entries →
    ∃ label, s.labels.relationships.decode? a.relationship = some label

/-- All labels that a graph uses have the same codes in other tables. -/
structure LegibleUnder (s : Store) (l : Labels) : Prop where
  placed : s.Placed
  own : s.labels.Valid
  valid : l.Valid
  relationships : s.labels.relationships.Keeps l.relationships
  types : s.labels.types.Keeps l.types
  arcsNamed : s.ArcsNamed
  typesNamed : s.TypesNamed

namespace LegibleUnder

variable {s : Store} {l : Labels} {c : CellId} (h : s.LegibleUnder l)
include h

/-! ## Labels that are shown -/

theorem decode_type (c : CellId) :
    (s.data c).type.bind l.types.decode? = (s.data c).type.bind s.labels.types.decode? := by
  cases htype : (s.data c).type with
  | none => rfl
  | some code =>
    obtain ⟨label, hlabel⟩ := h.typesNamed c code htype
    rw [Option.bind_some, Option.bind_some, hlabel, h.types code label hlabel]

/-- The attributes of a vertex, of one that has been taken out as well. -/
theorem info_eq (c : CellId) : ({ s with labels := l } : Store).info c = s.info c :=
  congrArg (fun type => { s.info c with type }) (h.decode_type c)

theorem vertexSnapshot_eq (c : CellId) :
    ({ s with labels := l } : Store).vertexSnapshot c = s.vertexSnapshot c :=
  congrArg (fun type => { s.vertexSnapshot c with type }) (h.decode_type c)

theorem relationshipLabel_eq {code : LabelCode}
    (hcode : ∃ label, s.labels.relationships.decode? code = some label) :
    l.relationshipLabel code = s.labels.relationshipLabel code := by
  obtain ⟨label, hlabel⟩ := hcode
  rw [Labels.relationshipLabel, Labels.relationshipLabel, hlabel, h.relationships code label hlabel]

theorem arcSnapshots_eq (hc : s.Live c) :
    ({ s with labels := l } : Store).arcSnapshots c = s.arcSnapshots c := by
  refine List.filterMap_congr fun e he => ?_
  obtain ⟨n, a⟩ := e
  have hlabel : l.relationshipLabel a.relationship = s.labels.relationshipLabel a.relationship :=
    h.relationshipLabel_eq (h.arcsNamed c hc n a (.inl he))
  simp only [hlabel]
  rfl

/-- What a query is shown of an arc and of the vertex at its far end. -/
theorem candidate_eq (hc : s.Live c) {n : VertexKey} {a : StoredArc}
    (ha : (n, a) ∈ (s.data c).out.entries ∨ (n, a) ∈ (s.data c).inbound.entries)
    (neighbor : CellId) (direction : Direction) (depth : Nat) :
    PlannedLevel.candidate { s with labels := l } c neighbor direction a depth =
      PlannedLevel.candidate s c neighbor direction a depth := by
  have hlabel : l.relationshipLabel a.relationship = s.labels.relationshipLabel a.relationship :=
    h.relationshipLabel_eq (h.arcsNamed c hc n a ha)
  simp only [PlannedLevel.candidate, h.info_eq neighbor, hlabel]
  rfl

/-! ## Labels that are asked for -/

theorem selects_eq {a : StoredArc} (p : Probe)
    (ha : ∃ label, s.labels.relationships.decode? a.relationship = some label) :
    p.selects l a = p.selects s.labels a := by
  have hlookup : ∀ label, (l.relationships.lookup? label == some a.relationship) =
      (s.labels.relationships.lookup? label == some a.relationship) := by
    intro label
    rw [Bool.eq_iff_iff, beq_iff_eq, beq_iff_eq,
      h.relationships.lookup?_iff h.own.relationships h.valid.relationships ha]
  simp only [Probe.selects, hlookup]

theorem arcs_eq (hc : s.Live c) (x : Level) : x.arcs { s with labels := l } c = x.arcs s c :=
  List.filter_congr fun _ hx => h.selects_eq x.arc
    (h.arcsNamed c hc _ _ (VertexData.stored_of_mem_arcsOn hx))

theorem fulfilled_eq (hc : s.Live c) (x : AdjacencyCondition) :
    x.fulfilled { s with labels := l } c = x.fulfilled s c := by
  rw [AdjacencyCondition.fulfilled, AdjacencyCondition.fulfilled]
  congr 1
  rw [Bool.eq_iff_iff, List.any_eq_true, List.any_eq_true]
  refine exists_congr fun y => and_congr_right fun hy => ?_
  have hselects := h.selects_eq x.probe (h.arcsNamed c hc _ _ (VertexData.stored_of_mem_arcsOn hy))
  dsimp only
  rw [hselects]

theorem asserts_eq (hc : s.Live c) (x : Level) :
    x.asserts { s with labels := l } c = x.asserts s c := by
  rw [Level.asserts, Level.asserts]
  cases x.adjacent with
  | none => rfl
  | some condition => exact h.fulfilled_eq hc condition

theorem admits_eq (v : VertexCondition) (c : CellId) :
    v.admits { s with labels := l } c = v.admits s c := by
  have htype : ∀ label, ((l.types.lookup? label).any fun code => (s.data c).type == some code) =
      (s.labels.types.lookup? label).any fun code => (s.data c).type == some code := by
    intro label
    have hany : ∀ t : LabelTable, ((t.lookup? label).any fun code => (s.data c).type == some code) =
        true ↔ ∃ code, t.lookup? label = some code ∧ (s.data c).type = some code := by
      intro t
      rw [Option.any_eq_true]
      simp only [beq_iff_eq]
    rw [Bool.eq_iff_iff, hany, hany]
    refine exists_congr fun code => and_congr_left fun hcode => ?_
    exact h.types.lookup?_iff h.own.types h.valid.types (h.typesNamed c code hcode) label
  rw [VertexCondition.admits, VertexCondition.admits]
  exact congrArg (fun b => _ && b && _) (congrArg (fun f => Option.all f v.type) (funext htype))

end LegibleUnder

end Store

namespace Action

open Store

/-! ## Alongside -/

variable {α β γ δ : Type} {s : Store} {l : Labels} {G : List Guard} {who : Caller}

/-- Both outcomes are the same failure, or values that stand in a relation. -/
inductive SameOutcome (Q : α → β → Prop) : Except Error α → Except Error β → Prop where
  | error (e : Error) : SameOutcome Q (.error e) (.error e)
  | ok {x : α} {y : β} (related : Q x y) : SameOutcome Q (.ok x) (.ok y)

theorem SameOutcome.bind {M : α → β → Prop} {Q : γ → δ → Prop} {r : Except Error α}
    {r' : Except Error β} {f : α → Except Error γ} {f' : β → Except Error δ}
    (h : SameOutcome M r r') (hf : ∀ x y, M x y → SameOutcome Q (f x) (f' y)) :
    SameOutcome Q (r >>= f) (r' >>= f') := by
  cases h with
  | error e => exact .error e
  | ok related => exact hf _ _ related

/-- What is known of both values may be added. -/
theorem SameOutcome.of_ok {M Q : α → β → Prop} {r : Except Error α} {r' : Except Error β}
    (h : SameOutcome M r r') (hq : ∀ x y, r = .ok x → r' = .ok y → Q x y) :
    SameOutcome Q r r' := by
  cases h with
  | error e => exact .error e
  | ok related => exact .ok (hq _ _ rfl rfl)

theorem SameOutcome.refl (r : Except Error α) : SameOutcome (· = ·) r r := by
  cases r with
  | error e => exact .error e
  | ok x => exact .ok rfl

theorem SameOutcome.eq {r r' : Except Error α} (h : SameOutcome (· = ·) r r') : r = r' := by
  cases h with
  | error e => rfl
  | ok related => rw [related]

/-- Under either tables the action changes nothing but the locks, and these alike, for which the
guards stay the same; and the outcomes are alike. -/
def Alongside (s : Store) (l : Labels) (G : List Guard) (a : Action α) (a' : Action β)
    (Q : α → β → Prop) : Prop :=
  ∀ t : LockTable, t.Accounts G → ∃ r r' t', a.run { s with locks := t } =
      (r, { s with locks := t' }) ∧
    a'.run { s with locks := t, labels := l } = (r', { s with locks := t', labels := l }) ∧
      t'.Accounts G ∧ SameOutcome Q r r'

/-! ## Sequences -/

theorem alongside_ofExcept {r : Except Error α} {r' : Except Error β} {Q : α → β → Prop}
    (h : SameOutcome Q r r') : Alongside s l G (ofExcept r) (ofExcept r') Q :=
  fun t hacc => ⟨r, r', t, rfl, rfl, hacc, h⟩

theorem alongside_same (r : Except Error α) :
    Alongside s l G (ofExcept r) (ofExcept r) (· = ·) := alongside_ofExcept (.refl r)

theorem alongside_pure {x : α} {y : β} {Q : α → β → Prop} (h : Q x y) :
    Alongside s l G (pure x) (pure y) Q := alongside_ofExcept (.ok h)

theorem alongside_read {f : Store → α} {f' : Store → β} {Q : α → β → Prop}
    (h : ∀ t, Q (f { s with locks := t }) (f' { s with locks := t, labels := l })) :
    Alongside s l G (read f) (read f') Q := fun t hacc => ⟨_, _, t, rfl, rfl, hacc, .ok (h t)⟩

theorem alongside_bind {a : Action α} {a' : Action β} {f : α → Action γ} {f' : β → Action δ}
    {M : α → β → Prop} {Q : γ → δ → Prop} (ha : Alongside s l G a a' M)
    (hf : ∀ x y, M x y → Alongside s l G (f x) (f' y) Q) :
    Alongside s l G (a >>= f) (a' >>= f') Q := by
  intro t hacc
  obtain ⟨r, r', t₁, hrun, hrun', hacc₁, hm⟩ := ha t hacc
  rw [run_bind, run_bind, hrun, hrun']
  cases hm with
  | error e => exact ⟨_, _, t₁, rfl, rfl, hacc₁, .error e⟩
  | ok related => exact hf _ _ related t₁ hacc₁

theorem alongside_mapM {xs : List α} {f f' : α → Action β}
    (h : ∀ x ∈ xs, Alongside s l G (f x) (f' x) (· = ·)) :
    Alongside s l G (xs.mapM f) (xs.mapM f') (· = ·) := by
  induction xs with
  | nil => exact alongside_pure rfl
  | cons x rest ih =>
    rw [List.mapM_cons, List.mapM_cons]
    refine alongside_bind (h x List.mem_cons_self) ?_
    rintro y _ rfl
    refine alongside_bind (ih fun z hz => h z (List.mem_cons_of_mem x hz)) ?_
    rintro ys _ rfl
    exact alongside_pure rfl

/-- While a vertex is held the bodies go alongside each other besides one more guard. -/
theorem alongside_holding {c : CellId} {body : Action α} {body' : Action β} {Q : α → β → Prop}
    (h : ∀ g, Alongside s l (g :: G) body body' Q) :
    Alongside s l G (holding who c .readonly body) (holding who c .readonly body') Q := by
  intro t hacc
  have hitem : Store.lockItem { s with locks := t } c = s.lockItem c := rfl
  have hitem' : Store.lockItem { s with locks := t, labels := l } c = s.lockItem c := rfl
  simp only [holding, acquire, run_bind, run_ofFun, hitem, hitem']
  cases hacq : t.acquire who.thread (s.lockItem c) .readonly with
  | error e => exact ⟨_, _, t, rfl, rfl, hacc, .error _⟩
  | ok p =>
    obtain ⟨g, t₁⟩ := p
    obtain ⟨r, r', t₂, hrun, hrun', hacc₂, hq⟩ := h g t₁ (LockTable.accounts_acquire hacc hacq)
    have hdrop : ({ s with locks := t₂ } : Store).drop g = { s with locks := t₂.release g } :=
      drop_of_readonly (s := { s with locks := t }) hacc hacq hacc₂
    have hdrop' : ({ s with locks := t₂, labels := l } : Store).drop g =
        { s with locks := t₂.release g, labels := l } :=
      drop_of_readonly (s := { s with locks := t, labels := l }) hacc hacq hacc₂
    refine ⟨r, r', t₂.release g, ?_, ?_, LockTable.accounts_release hacc₂, hq⟩
    · simp only [ensuring, run_ofFun, hrun, hdrop]
    · simp only [ensuring, run_ofFun, hrun', hdrop']

/-! ## Look-ups -/

/-- Two filters test all arcs alike whose relationship has its label. -/
def SameTest (s : Store) (f f' : ArcFilter) : Prop :=
  ∀ a : StoredArc, (∃ label, s.labels.relationships.decode? a.relationship = some label) →
    f'.test a = f.test a

/-- Either graph is read as it is. -/
theorem alongside_id : Alongside s l G (read id) (read id) fun x y =>
    ∃ t, x = { s with locks := t } ∧ y = { s with locks := t, labels := l } :=
  alongside_read fun t => ⟨t, rfl, rfl⟩

variable (h : s.LegibleUnder l)
include h

theorem alongside_find (id : String) :
    Alongside s l G (find id) (find id) fun c c' => c = c' ∧ s.Live c := by
  refine alongside_bind (M := fun found found' => found = found' ∧ s.lookup id = found)
    (alongside_read fun t => ⟨rfl, rfl⟩) ?_
  rintro found _ ⟨rfl, hfound⟩
  cases found with
  | none => exact alongside_ofExcept (.error _)
  | some c => exact alongside_pure ⟨rfl, (h.placed.of_lookup hfound).1⟩

theorem alongside_vertexInfo (id : String) :
    Alongside s l G (vertexInfo who id) (vertexInfo who id) (· = ·) := by
  refine alongside_bind (alongside_find h id) ?_
  rintro c _ ⟨rfl, _⟩
  exact alongside_holding fun g => alongside_read fun _ => (h.info_eq _).symm

/-- The filters of a probe test all arcs of the graph alike, or there are none for the same
reason. -/
theorem sameOutcome_filterOf (p : Probe) :
    SameOutcome (SameTest s) (s.filterOf p) (({ s with labels := l } : Store).filterOf p) := by
  have hcases : SameOutcome (fun _ _ => True) (ArcFilter.ofProbe s.labels p)
      (ArcFilter.ofProbe l p) := by
    rcases ofProbe_cases s.labels l p with ⟨e, he, he'⟩ | ⟨f, f', hf, hf'⟩
    · rw [he, he']
      exact .error e
    · rw [hf, hf']
      exact .ok trivial
  refine hcases.of_ok fun f f' hf hf' a ha => ?_
  rw [test_of_ofProbe hf, test_of_ofProbe hf', h.selects_eq p ha]

section Filters

variable {f f' : ArcFilter} {c : CellId} (hf : SameTest s f f') (hc : s.Live c)
include hf hc

theorem matchingArcs_congr (direction : Direction) :
    (s.data c).matchingArcs f' direction = (s.data c).matchingArcs f direction := by
  rw [VertexData.matchingArcs_eq, VertexData.matchingArcs_eq]
  exact List.filter_congr fun x hx =>
    hf x.2.2 (h.arcsNamed c hc _ _ (VertexData.stored_of_mem_arcsOn hx))

theorem arcsBetween_congr (n : VertexKey) (direction : Direction) :
    (s.data c).arcsBetween n f' direction = (s.data c).arcsBetween n f direction := by
  refine List.filter_congr fun a ha => hf a (h.arcsNamed c hc n a ?_)
  rw [ArcIndex.mem_entries_iff, ArcIndex.mem_entries_iff]
  refine (List.mem_append.1 ha).imp (fun hout => ?_) fun hin => ?_
  · split at hout
    · exact hout
    · cases hout
  · split at hin
    · exact hin
    · cases hin

theorem hasMatchingArc_congr (direction : Direction) (neighbors : Option (List VertexKey)) :
    (s.data c).hasMatchingArc f' direction neighbors =
      (s.data c).hasMatchingArc f direction neighbors := by
  cases neighbors with
  | none => simp only [VertexData.hasMatchingArc, matchingArcs_congr h hf hc]
  | some keys => simp only [VertexData.hasMatchingArc, arcsBetween_congr h hf hc]

end Filters

theorem alongside_arcValue (initial : String) (probe : Probe) (terminal : String) :
    Alongside s l G (arcValue who initial probe terminal) (arcValue who initial probe terminal)
      (· = ·) := by
  refine alongside_bind (M := SameOutcome (SameTest s))
    (alongside_read fun _ => sameOutcome_filterOf h probe) fun r r' hr => ?_
  refine alongside_bind (alongside_ofExcept hr) fun f f' hf => ?_
  refine alongside_bind (alongside_find h initial) ?_
  rintro c _ ⟨rfl, hc⟩
  refine alongside_holding fun g => ?_
  refine alongside_bind (M := (· = ·)) (alongside_read fun _ => rfl) ?_
  rintro found _ rfl
  cases found with
  | none => exact alongside_pure rfl
  | some t =>
    refine alongside_bind alongside_id ?_
    rintro _ _ ⟨_, rfl, rfl⟩
    exact alongside_pure (congrArg (fun arcs => arcs.head?.map (·.value))
      (arcsBetween_congr h hf hc _ _).symm)

theorem alongside_adjacent (anchor : String) (probe : Probe) (neighbor : Option String) :
    Alongside s l G (adjacent who anchor probe neighbor) (adjacent who anchor probe neighbor)
      (· = ·) := by
  refine alongside_bind (M := SameOutcome (SameTest s))
    (alongside_read fun _ => sameOutcome_filterOf h probe) fun r r' hr => ?_
  refine alongside_bind (alongside_ofExcept hr) fun f f' hf => ?_
  refine alongside_bind (alongside_find h anchor) ?_
  rintro c _ ⟨rfl, hc⟩
  refine alongside_holding fun g => alongside_bind alongside_id ?_
  rintro _ _ ⟨_, rfl, rfl⟩
  cases neighbor with
  | none => exact alongside_pure (hasMatchingArc_congr h hf hc _ _).symm
  | some id =>
    have hlookup : ∀ t, ({ s with locks := t } : Store).lookup id = s.lookup id := fun _ => rfl
    have hlookup' : ∀ t, ({ s with locks := t, labels := l } : Store).lookup id = s.lookup id :=
      fun _ => rfl
    simp only [hlookup, hlookup']
    cases s.lookup id with
    | none => exact alongside_pure rfl
    | some n => exact alongside_pure (hasMatchingArc_congr h hf hc _ _).symm

theorem alongside_degree (anchor : String) (probe : Option Probe) :
    Alongside s l G (degree who anchor probe) (degree who anchor probe) (· = ·) := by
  refine alongside_bind (alongside_find h anchor) ?_
  rintro c _ ⟨rfl, hc⟩
  refine alongside_holding fun g => alongside_bind alongside_id ?_
  rintro _ _ ⟨_, rfl, rfl⟩
  cases probe with
  | none => exact alongside_pure rfl
  | some probe =>
    refine alongside_bind (alongside_ofExcept (sameOutcome_filterOf h probe)) fun f f' hf => ?_
    exact alongside_pure (congrArg List.length (matchingArcs_congr h hf hc _).symm)

/-! ## Snapshots -/

theorem alongside_snapshot : Alongside s l G (snapshot who) (snapshot who) (· = ·) := by
  refine alongside_bind alongside_id ?_
  rintro _ _ ⟨_, rfl, rfl⟩
  refine alongside_bind (M := (· = ·)) (alongside_mapM fun c hc => ?_) ?_
  · have hlive : s.Live c := (mem_registered_iff h.placed).1 (List.mem_mergeSort.1 hc)
    exact alongside_holding fun g => alongside_read fun _ =>
      Prod.ext (h.vertexSnapshot_eq c).symm (h.arcSnapshots_eq hlive).symm
  · rintro parts _ rfl
    exact alongside_pure rfl

end Action

end Arcbase
