import Arcbase.Proofs.Scene.Arcs
import Arcbase.Proofs.Schedule
import Arcbase.Proofs.Snapshot.Listing
set_option autoImplicit false

/-!
# What a restore puts into the store

The vertices of a restored graph are the staged ones (`cell_commit`,
`staged_of_lookupKey`), and its schedule has the entries that have been staged
(`time?_commit`).  Since staging does not mix forward-only and regular arcs, they are not
mixed in the restored graph either (`exclusive_commit`).
-/

namespace Arcbase

/-! ## Schedules that are filled -/

namespace Schedule

/-- Entries that do not disagree are all in the schedule afterwards. -/
theorem time?_foldl_set {entries : List (Expiring × UInt32)}
    (hagree : ∀ e ∈ entries, ∀ e' ∈ entries, e.1 = e'.1 → e.2 = e'.2) {s : Schedule}
    (hempty : ∀ item, s.time? item = none) {item : Expiring} {time : UInt32} :
    (entries.foldl (fun s e => s.set e.1 e.2) s).time? item = some time ↔
      (item, time) ∈ entries := by
  induction entries using List.reverseRecOn with
  | nil =>
    rw [List.foldl_nil, hempty]
    exact ⟨nofun, fun h => absurd h List.not_mem_nil⟩
  | append_singleton rest e ih =>
    have ih := ih fun a ha b hb =>
      hagree a (List.mem_append_left _ ha) b (List.mem_append_left _ hb)
    rw [List.foldl_append, List.foldl_cons, List.foldl_nil, time?_set, List.mem_append,
      List.mem_singleton]
    have hlast : e ∈ rest ++ [e] := List.mem_append_right _ (List.mem_singleton_self e)
    split
    next hitem =>
      subst hitem
      constructor
      · rintro h
        exact .inr (Prod.ext rfl (Option.some.inj h).symm)
      · rintro (h | h)
        · exact congrArg some (hagree e hlast _ (List.mem_append_left _ h) rfl)
        · exact congrArg (fun e => some e.2) h.symm
    next hitem =>
      rw [ih]
      exact ⟨.inl, fun h => h.resolve_right fun e' => hitem (congrArg Prod.fst e').symm⟩

end Schedule

namespace Staging

open Store

variable {g : Staging} {s : Store} {key : VertexKey} {cell : Cell} {c : CellId}

/-! ## Vertices -/

theorem cell_foldl_addCell (cells : List Cell) {s : Store} (hc : c < s.cells.size) :
    (cells.foldl addCell s).cell c = s.cell c := by
  induction cells generalizing s with
  | nil => rfl
  | cons new rest ih =>
    rw [List.foldl_cons, ih (by rw [size_cells_addCell]; exact Nat.lt_succ_of_lt hc), cell_addCell,
      if_neg (Nat.ne_of_lt hc)]

/-- Every staged vertex is put in. -/
theorem cell_commit (hg : g.Keyed) (s : Store) (hcell : g.cells.get? key = some cell) :
    ∃ c, (g.commit s).lookupKey key = some c ∧ (g.commit s).cell c = cell := by
  obtain ⟨schedule, hcommit⟩ := g.stagedOn_commit s
  obtain ⟨l₁, l₂, hvalues, _, hlater⟩ := AssocMap.values_insert_of_get? hcell
  have hstore : g.stagedOn s =
      { l₂.foldl addCell ((l₁.foldl addCell s).addCell cell) with size := g.size } := by
    rw [stagedOn, hvalues, List.foldl_append, List.foldl_cons]
  have hlt : (l₁.foldl addCell s).cells.size < ((l₁.foldl addCell s).addCell cell).cells.size := by
    rw [size_cells_addCell]
    exact Nat.lt_succ_self _
  refine ⟨(l₁.foldl addCell s).cells.size, ?_, ?_⟩
  · rw [hcommit, hstore]
    change (l₂.foldl addCell _).lookupKey key = _
    rw [lookupKey_foldl_addCell fun cell' hm => ?_, lookupKey_addCell, if_pos (hg _ _ hcell)]
    obtain ⟨k', hne, hk'⟩ := hlater cell' hm
    exact fun e => hne ((hg _ _ hk').symm.trans e)
  · rw [hcommit, hstore]
    change (l₂.foldl addCell _).cell _ = cell
    rw [cell_foldl_addCell l₂ hlt, cell_addCell, if_pos rfl]

/-- In a graph that was empty, all vertices are staged ones. -/
theorem staged_of_lookupKey (hg : g.Keyed) (hempty : s.table = .empty)
    (hc : (g.commit s).lookupKey key = some c) :
    ∃ cell, g.cells.get? key = some cell ∧ (g.commit s).cell c = cell := by
  cases hcell : g.cells.get? key with
  | some cell =>
    obtain ⟨c', hc', hcell'⟩ := cell_commit hg s hcell
    obtain rfl := Option.some.inj (hc.symm.trans hc')
    exact ⟨cell, rfl, hcell'⟩
  | none =>
    obtain ⟨schedule, hcommit⟩ := g.stagedOn_commit s
    have hnone : (g.commit s).lookupKey key = none := by
      rw [hcommit]
      change (g.cells.values.foldl addCell s).lookupKey key = none
      rw [lookupKey_foldl_addCell fun cell' hm e => ?_, lookupKey, hempty, AssocMap.get?_empty]
      obtain ⟨key', hk⟩ := AssocMap.mem_values_iff.1 hm
      have hkey : key' = key := (hg key' cell' hk).symm.trans e
      rw [hkey, hcell] at hk
      cases hk
    rw [hnone] at hc
    cases hc

/-- In a graph that was empty, no vertex takes the place of an old one. -/
theorem size_le_of_lookupKey (hempty : s.table = .empty)
    (hc : (g.commit s).lookupKey key = some c) : s.cells.size ≤ c := by
  have hfold : ∀ (cells : List Cell) (s : Store), (cells.foldl addCell s).lookupKey key = some c →
      s.lookupKey key = some c ∨ s.cells.size ≤ c := by
    intro cells
    induction cells with
    | nil => exact fun s h => .inl h
    | cons new rest ih =>
      intro s h
      rcases ih (s.addCell new) h with hold | hle
      · rw [lookupKey_addCell] at hold
        split at hold
        · exact .inr (Nat.le_of_eq (Option.some.inj hold))
        · exact .inl hold
      · rw [size_cells_addCell] at hle
        exact .inr (Nat.le_of_succ_le hle)
  obtain ⟨schedule, hcommit⟩ := g.stagedOn_commit s
  rw [hcommit] at hc
  refine (hfold g.cells.values s hc).resolve_left ?_
  rw [lookupKey, hempty, AssocMap.get?_empty]
  exact fun h => Option.some_ne_none c h.symm

/-! ## The schedule -/

/-- The entries of the vertices that are to expire. -/
def vertexEntries (g : Staging) : List (Expiring × UInt32) :=
  g.cells.values.filterMap fun cell => cell.data.expires.map fun time => (.vertex cell.id, time)

theorem schedule_commit (g : Staging) (s : Store) : (g.commit s).schedule =
    (g.expiring ++ g.vertexEntries).foldl (fun s e => s.set e.1 e.2) s.schedule := by
  have hfold : ∀ (entries : List (Expiring × UInt32)) (s : Store),
      (entries.foldl (fun s e => s.scheduleAt e.1 e.2) s).schedule =
        entries.foldl (fun s e => s.set e.1 e.2) s.schedule := by
    intro entries
    induction entries with
    | nil => exact fun _ => rfl
    | cons e rest ih => exact fun s => ih (s.scheduleAt e.1 e.2)
  obtain ⟨cells', table, hcells⟩ := foldl_addCell g.cells.values s
  exact (hfold _ _).trans (by rw [hcells]; rfl)

theorem mem_vertexEntries {entry : Expiring × UInt32} : entry ∈ g.vertexEntries ↔
    ∃ key cell, g.cells.get? key = some cell ∧
      ∃ time, cell.data.expires = some time ∧ entry = (.vertex cell.id, time) := by
  simp only [vertexEntries, List.mem_filterMap, AssocMap.mem_values_iff, Option.map_eq_some_iff]
  constructor
  · rintro ⟨cell, ⟨key, hcell⟩, time, htime, rfl⟩
    exact ⟨key, cell, hcell, time, htime, rfl⟩
  · rintro ⟨key, cell, hcell, time, htime, rfl⟩
    exact ⟨cell, ⟨key, hcell⟩, time, htime, rfl⟩

/-! ## Laws -/

theorem config_commit (g : Staging) (s : Store) : (g.commit s).config = s.config := by
  obtain ⟨schedule, hcommit⟩ := g.stagedOn_commit s
  obtain ⟨cells', table, hcells⟩ := foldl_addCell g.cells.values s
  rw [hcommit, stagedOn, hcells]

theorem locks_commit (g : Staging) (s : Store) : (g.commit s).locks = s.locks := by
  obtain ⟨schedule, hcommit⟩ := g.stagedOn_commit s
  obtain ⟨cells', table, hcells⟩ := foldl_addCell g.cells.values s
  rw [hcommit, stagedOn, hcells]

/-- Every cell was there or has been staged. -/
theorem cell_commit_cases (g : Staging) (s : Store) (hc : c < (g.commit s).cells.size) :
    c < s.cells.size ∧ (g.commit s).cell c = s.cell c ∨
      ∃ key, g.cells.get? key = some ((g.commit s).cell c) := by
  have hfold : ∀ (cells : List Cell) (s : Store), c < (cells.foldl addCell s).cells.size →
      c < s.cells.size ∨ (cells.foldl addCell s).cell c ∈ cells := by
    intro cells
    induction cells with
    | nil => exact fun s hc => .inl hc
    | cons new rest ih =>
      intro s hc
      rcases ih (s.addCell new) hc with hlt | hm
      · by_cases hnew : c = s.cells.size
        · rw [List.foldl_cons, cell_foldl_addCell rest hlt, cell_addCell, if_pos hnew]
          exact .inr List.mem_cons_self
        · rw [size_cells_addCell] at hlt
          exact .inl (Nat.lt_of_le_of_ne (Nat.le_of_lt_succ hlt) hnew)
      · exact .inr (List.mem_cons_of_mem new hm)
  obtain ⟨schedule, hcommit⟩ := g.stagedOn_commit s
  rw [hcommit] at hc ⊢
  rcases hfold g.cells.values s hc with hlt | hm
  · exact .inl ⟨hlt, cell_foldl_addCell _ hlt⟩
  · exact .inr (AssocMap.mem_values_iff.1 hm)

variable {agree : Agreement} {l : List CodedArc}

/-- Every arc of a restored graph is one of the snapshot. -/
theorem exists_coded (hg : g.Keyed) (hf : Filed l g) (hempty : s.table = .empty)
    (hs : (g.commit s).Sound agree) {p : PlacedArc} (hp : p ∈ (g.commit s).arcs) :
    ∃ q ∈ l, q.stored = p.arc := by
  obtain ⟨i, t, hi, _, _, _, ha⟩ := exists_arcAt? hs hp
  obtain ⟨cell, hcell, hsame⟩ := staged_of_lookupKey hg hempty (hs.placed.lookup_key hi)
  rw [arcAt?, Store.data, hsame, hf.out _ cell hcell] at ha
  obtain ⟨q, hq, hstored⟩ := Option.map_eq_some_iff.1 ha
  exact ⟨q, (CodedArc.mem_of_last? hq).1, hstored⟩

end Staging

theorem ArcsStaged.keyed {s : Store} {vertices : List VertexSnapshot} {arcs : List ArcSnapshot}
    {g : Staging} {l : Labels} (h : ArcsStaged s vertices arcs g l) : g.Keyed :=
  fun key cell hcell => (h.enrolled.keyed key cell hcell).1

/-- The arcs of a restored graph keep the laws of a graph in use. -/
theorem ArcsStaged.lawful {agree : Agreement} {s : Store} {vertices : List VertexSnapshot}
    {arcs : List ArcSnapshot} {g : Staging} {l : Labels} (h : ArcsStaged s vertices arcs g l)
    (hempty : s.table = .empty) (hw : s.WellNamed)
    (hs : (g.commit { s with labels := l }).Sound agree) :
    (g.commit { s with labels := l }).Lawful := by
  obtain ⟨coded, _, hcodes, hf⟩ := h.filed
  have hlabels := g.labels_commit { s with labels := l }
  have hcoded : ∀ p ∈ (g.commit { s with labels := l }).arcs, ∃ q ∈ coded, q.stored = p.arc :=
    fun _ => Staging.exists_coded (s := { s with labels := l }) h.keyed hf hempty hs
  refine ⟨Store.exclusive_of_unmixed hs fun t ht => ?_, fun p hp => ?_, ⟨?_, fun p hp => ?_⟩,
    fun c hc => ?_⟩
  · obtain ⟨cell, hcell, hsame⟩ :=
      Staging.staged_of_lookupKey (s := { s with labels := l }) h.keyed hempty
        (hs.placed.lookup_key ht)
    rw [Store.data, hsame]
    exact hf.unmixed _ cell hcell
  · obtain ⟨q, hq, hstored⟩ := hcoded p hp
    rw [← hstored]
    exact hf.allowed q hq
  · exact hlabels ▸ h.labels.relationships
  · obtain ⟨q, hq, hstored⟩ := hcoded p hp
    rw [hlabels, ← hstored]
    exact ⟨_, hcodes q hq⟩
  · rw [Store.identifierFault?, Staging.config_commit]
    change s.identifierFault? _ = none
    rcases g.cell_commit_cases { s with labels := l } hc with ⟨hlt, hsame⟩ | ⟨key, hcell⟩
    · rw [hsame]
      exact hw c hlt
    · exact h.named _ (h.enrolled.only key _ hcell)

end Arcbase
