import Arcbase.Proofs.Action.Admitting
import Arcbase.Proofs.Action.Retracting
import Arcbase.Proofs.Store.Slots
set_option autoImplicit false

/-!
# How a connect comes by its ends

A connect looks its ends up and registers those that are missing: its initial real, a single
terminal virtual.  Nothing else happens until it has all of them (`Located`), and what is
registered has no arcs (`Located.come`, `Located.sameArcs`).
-/

namespace Arcbase

/-- A vertex as it is when it is registered. -/
def Cell.new (id : String) (manifestation : Manifestation) (now : UInt32) : Cell :=
  { id, key := .of id, data := .new manifestation now }

namespace Store

variable {agree : Agreement} {s s' : Store} {G : List Guard} {new : List Cell} {c : CellId}

/-! ## What has been registered -/

theorem Grown.live_iff (h : Grown new s s') (hc : c < s.cells.size) : s'.Live c ↔ s.Live c := by
  rw [Live, Live, data, h.cell c hc, data]
  exact and_congr_left fun _ => iff_of_true (Nat.lt_of_lt_of_le hc h.count) hc

/-- A vertex that is there afterwards only is one of the new ones. -/
theorem Grown.mem_new (h : Grown new s s') (hp : s.Placed) (hp' : s'.Placed) (hc : s'.Live c)
    (hnew : ¬ s.Live c) : s.cells.size ≤ c ∧ s'.cell c ∈ new := by
  have hsize : s.cells.size ≤ c := Nat.le_of_not_lt fun hlt => hnew ((h.live_iff hlt).1 hc)
  obtain ⟨cs, hentries, _, hcells⟩ := h.table
  have hentry := (AssocMap.mem_entries_iff s'.table (s'.cell c).key c).2 (hp'.lookup_key hc)
  rw [hentries, List.mem_append] at hentry
  refine ⟨hsize, hcells ▸ List.mem_map_of_mem ?_⟩
  rcases hentry with hold | hadded
  · have hlookup := (AssocMap.mem_entries_iff s.table (s'.cell c).key c).1 hold
    exact absurd (hp.live_of_lookup hlookup).1 (Nat.not_lt_of_le hsize)
  · obtain ⟨c', hc', he⟩ := List.mem_map.1 hadded
    exact (Prod.mk.inj he).2 ▸ hc'

/-- A store that has only grown by bare vertices has the same arcs. -/
theorem Grown.sameArcs (h : Grown new s s') (hs : s.Sound agree) (hs' : s'.Sound agree)
    (hbare : ∀ vertex ∈ new, Bare vertex.data) :
    SameArcs { s with labels := s'.labels } s' := by
  refine ⟨rfl, fun c hc _ => ?_, fun c hc _ => ?_, fun c hc _ => ?_, fun c hc hgone => ?_,
    fun c hc hnew => hbare _ (h.mem_new hs.placed hs'.placed hc hnew).2⟩
  · rw [h.cell c hc.1]
    rfl
  · rw [data, h.cell c hc.1]
    rfl
  · rw [data, h.cell c hc.1]
    rfl
  · exact absurd ((h.live_iff hc.1).2 hc) hgone

/-! ## Finding or adding -/

theorem enlarged_addCell (hs : s.Sound agree) (hg : s.Guarded G) {vertex : Cell}
    (free : s.lookupKey vertex.key = none) (keyed : vertex.key = .of vertex.id)
    (kept : vertex.data.deleted = false) (bare : Bare vertex.data) :
    Enlarged agree G s (s.addCell vertex) :=
  ⟨(Step.add (W := fun _ => True) free keyed kept bare).sound hs,
    Action.Guarded.of_addCell hg vertex, fun _ => mem_arcs_addCell hs free keyed kept bare,
    extends_addCell s vertex, fun _ hc => (live_addCell_iff kept).2 (.inr hc), rfl, rfl, rfl⟩

end Store

namespace Action

open Store

variable {agree : Agreement} {s s' : Store} {G : List Guard} {who : Caller} {id initial : String}
  {manifestation : Manifestation} {c i : CellId} {isNew : Bool} {terminals : Terminals}
  {cells added : List CellId} {e : Error}

theorem enlarged_findOrAdd (hs : s.Sound agree) (hg : s.Guarded G)
    (hrun : (findOrAdd who id manifestation).run s = (.ok (c, isNew), s')) :
    Enlarged agree G s s' ∧ s'.lookup id = some c ∧
      ∃ new, Grown new s s' ∧ ∀ vertex ∈ new, vertex = .new id manifestation who.now := by
  rcases run_findOrAdd hrun with ⟨rfl, rfl, hkey, hid⟩ | ⟨rfl, hfree, rfl, rfl⟩
  · refine ⟨.refl hs hg, ?_, [], .refl _, fun _ hm => absurd hm List.not_mem_nil⟩
    rw [Store.lookup, hkey]
    simp [hid]
  · have henlarged : Enlarged agree G s (s.addCell (.new id manifestation who.now)) :=
      enlarged_addCell hs hg hfree rfl rfl (bare_new manifestation who.now)
    have hlive : (s.addCell (.new id manifestation who.now)).Live s.cells.size :=
      (live_addCell_iff rfl).2 (.inl rfl)
    have hfound := henlarged.sound.placed.lookup_of_live hlive
    rw [cell_addCell, if_pos rfl] at hfound
    exact ⟨henlarged, hfound, _, grown_addCell hfree, fun _ hm => List.mem_singleton.1 hm⟩

/-- Whoever finds nothing and adds nothing leaves the store as it is. -/
theorem run_findOrAdd_error (hrun : (findOrAdd who id manifestation).run s = (.error e, s')) :
    s' = s ∧ ∃ fault, e = .vertex fault := by
  simp only [findOrAdd, run_bind, Action.read, run_ofFun] at hrun
  cases hfault : s.identifierFault? id with
  | some fault =>
    rw [hfault] at hrun
    cases hrun
    exact ⟨rfl, fault, rfl⟩
  | none =>
    simp only [hfault, refuse, run_pure] at hrun
    cases hkey : s.lookupKey (.of id) with
    | none =>
      simp only [hkey, run_bind, run_ofFun, Action.update] at hrun
      cases hrun
    | some c =>
      simp only [hkey, run_bind, run_ofFun] at hrun
      split at hrun
      · cases hrun
      · cases hrun
        exact ⟨rfl, _, rfl⟩

/-! ## Terminals -/

/-- The cell of a terminal that has to exist. -/
def findTerminal (t : String) : Action CellId := do
  match ← read (·.lookup t) with
  | some c => return c
  | none => fail (.vertex (.missingTerminal t))

theorem terminalCells_list (who : Caller) (initial : String) (i : CellId) (ids : List String) :
    terminalCells who initial i (.list ids) = (do
      let cells ← ids.mapM findTerminal
      return (cells, [])) := rfl

/-- Existing vertices are all found, or one of them is missing. -/
theorem run_findTerminals (ids : List String) (s : Store) :
    (∃ cells, (ids.mapM findTerminal).run s = (.ok cells, s) ∧
      List.Forall₂ (fun id c => s.lookup id = some c) ids cells) ∨
    ∃ t, (ids.mapM findTerminal).run s = (.error (.vertex (.missingTerminal t)), s) := by
  induction ids with
  | nil => exact .inl ⟨[], rfl, .nil⟩
  | cons t rest ih =>
    simp only [List.mapM_cons, run_bind, findTerminal, Action.read, run_ofFun] at ih ⊢
    cases hfound : s.lookup t with
    | none => exact .inr ⟨t, rfl⟩
    | some c =>
      simp only [run_pure]
      rcases ih with ⟨cells, hrun, hcells⟩ | ⟨t', hrun⟩
      · rw [hrun]
        exact .inl ⟨c :: cells, rfl, .cons hfound hcells⟩
      · rw [hrun]
        exact .inr ⟨t', rfl⟩

theorem enlarged_terminalCells (hs : s.Sound agree) (hg : s.Guarded G)
    (hi : s.lookup initial = some i)
    (hrun : (terminalCells who initial i terminals).run s = (.ok (cells, added), s')) :
    Enlarged agree G s s' ∧
      List.Forall₂ (fun id t => s'.lookup id = some t) terminals.ids cells ∧
        ∃ new, Grown new s s' ∧
          ∀ vertex ∈ new, ∃ id ∈ terminals.ids, vertex = .new id .virtual who.now := by
  cases terminals with
  | one t =>
    simp only [terminalCells] at hrun
    split at hrun
    next he =>
      cases hrun
      exact ⟨.refl hs hg, .cons (he ▸ hi) .nil, [], .refl s,
        fun _ hm => absurd hm List.not_mem_nil⟩
    next =>
      rw [run_bind] at hrun
      cases hrun₁ : (findOrAdd who t .virtual).run s with
      | mk r s₁ =>
        rw [hrun₁] at hrun
        cases r with
        | error e => cases hrun
        | ok p =>
          cases hrun
          obtain ⟨henlarged, hfound, new, hgrown, hnew⟩ := enlarged_findOrAdd hs hg hrun₁
          exact ⟨henlarged, .cons hfound .nil, new, hgrown,
            fun vertex hm => ⟨t, List.mem_singleton_self t, hnew vertex hm⟩⟩
  | list ids =>
    rw [terminalCells_list, run_bind] at hrun
    rcases run_findTerminals ids s with ⟨found, hfound, hcells⟩ | ⟨t, hmissing⟩
    · rw [hfound] at hrun
      cases hrun
      exact ⟨.refl hs hg, hcells, [], .refl s, fun _ hm => absurd hm List.not_mem_nil⟩
    · rw [hmissing] at hrun
      cases hrun

theorem run_terminalCells_error
    (hrun : (terminalCells who initial i terminals).run s = (.error e, s')) :
    s' = s ∧ ∃ fault, e = .vertex fault := by
  cases terminals with
  | one t =>
    simp only [terminalCells] at hrun
    split at hrun
    · cases hrun
    · rw [run_bind] at hrun
      cases hrun₁ : (findOrAdd who t .virtual).run s with
      | mk r s₁ =>
        rw [hrun₁] at hrun
        cases r with
        | error e₁ =>
          cases hrun
          exact run_findOrAdd_error hrun₁
        | ok p => cases hrun
  | list ids =>
    rw [terminalCells_list, run_bind] at hrun
    rcases run_findTerminals ids s with ⟨found, hfound, _⟩ | ⟨t, hmissing⟩
    · rw [hfound] at hrun
      cases hrun
    · rw [hmissing] at hrun
      cases hrun
      exact ⟨rfl, _, rfl⟩

/-! ## All ends -/

/-- The ends of a request have been found or registered, and nothing else has happened. -/
structure Located (agree : Agreement) (who : Caller) (r : ConnectRequest) (G : List Guard)
    (i : CellId) (cells : List CellId) (s s' : Store) : Prop where
  enlarged : Enlarged agree G s s'
  initial : s'.lookup r.initial = some i
  terminals : List.Forall₂ (fun id t => s'.lookup id = some t) r.terminals.ids cells
  grown : ∃ new, Grown new s s' ∧ ∀ vertex ∈ new, vertex = .new r.initial .real who.now ∨
    ∃ id ∈ r.terminals.ids, vertex = .new id .virtual who.now

variable {r : ConnectRequest} {t : CellId}

theorem located_of_runs {s₁ : Store} (hs : s.Sound agree) (hg : s.Guarded G)
    (hinitial : (findOrAdd who r.initial .real).run s = (.ok (i, isNew), s₁))
    (hterminals : (terminalCells who r.initial i r.terminals).run s₁ = (.ok (cells, added), s')) :
    Located agree who r G i cells s s' := by
  obtain ⟨henlarged, hi, new, hgrown, hnew⟩ := enlarged_findOrAdd hs hg hinitial
  obtain ⟨henlarged', hcells, new', hgrown', hnew'⟩ :=
    enlarged_terminalCells henlarged.sound henlarged.guarded hi hterminals
  refine ⟨henlarged.trans henlarged', henlarged'.lookup henlarged.sound.placed hi, hcells, _,
    hgrown.trans hgrown', fun vertex hm => ?_⟩
  exact (List.mem_append.1 hm).imp (hnew vertex) (hnew' vertex)

namespace Located

variable (h : Located agree who r G i cells s s')
include h

/-- The cell of a terminal. -/
theorem terminal {id : String} (hid : id ∈ r.terminals.ids) :
    ∃ t ∈ cells, s'.lookup id = some t := by
  obtain ⟨n, hn, rfl⟩ := List.getElem_of_mem hid
  obtain ⟨hlength, hget⟩ := List.forall₂_iff_get.1 h.terminals
  have hn' : n < cells.length := hlength ▸ hn
  exact ⟨cells[n], List.getElem_mem hn', hget n hn hn'⟩

/-- The identifier of a terminal. -/
theorem id_of_mem (ht : t ∈ cells) : ∃ id ∈ r.terminals.ids, s'.lookup id = some t := by
  obtain ⟨n, hn, rfl⟩ := List.getElem_of_mem ht
  obtain ⟨hlength, hget⟩ := List.forall₂_iff_get.1 h.terminals
  have hn' : n < r.terminals.ids.length := hlength ▸ hn
  exact ⟨r.terminals.ids[n], List.getElem_mem hn', hget n hn' hn⟩

theorem live_initial : s'.Live i := (h.enlarged.sound.placed.of_lookup h.initial).1

theorem live_of_mem (ht : t ∈ cells) : s'.Live t := by
  obtain ⟨id, _, hid⟩ := h.id_of_mem ht
  exact (h.enlarged.sound.placed.of_lookup hid).1

theorem nodup (hids : r.terminals.ids.Nodup) : cells.Nodup := by
  have hcells : ∀ {ids : List String} {cells : List CellId},
      List.Forall₂ (fun id t => s'.lookup id = some t) ids cells →
        ids = cells.map (s'.cell · |>.id) := by
    intro ids cells hfound
    induction hfound with
    | nil => rfl
    | cons hid _ ih =>
      rw [List.map_cons, ← ih, (h.enlarged.sound.placed.of_lookup hid).2]
  exact (hcells h.terminals ▸ hids).of_map _

/-- A vertex that has come is the initial, real, or one of the terminals, virtual. -/
theorem come (hs : s.Sound agree) (hc : s'.Live c) (hnew : ¬ s.Live c) : s.cells.size ≤ c ∧
    (s'.cell c = .new r.initial .real who.now ∨
      c ∈ cells ∧ ∃ id, s'.cell c = .new id .virtual who.now) := by
  obtain ⟨new, hgrown, hnew'⟩ := h.grown
  obtain ⟨hsize, hm⟩ := hgrown.mem_new hs.placed h.enlarged.sound.placed hc hnew
  refine ⟨hsize, (hnew' _ hm).imp id fun ⟨id, hid, he⟩ => ⟨?_, id, he⟩⟩
  obtain ⟨t, ht, hlookup⟩ := h.terminal hid
  have hself := h.enlarged.sound.placed.lookup_of_live hc
  rw [he] at hself
  exact Option.some.inj (hself.symm.trans hlookup) ▸ ht

theorem cell (hc : c < s.cells.size) : s'.cell c = s.cell c := by
  obtain ⟨_, hgrown, _⟩ := h.grown
  exact hgrown.cell c hc

theorem size : s'.size = s.size := by
  obtain ⟨_, hgrown, _⟩ := h.grown
  exact hgrown.size

theorem schedule : s'.schedule = s.schedule := by
  obtain ⟨_, hgrown, _⟩ := h.grown
  exact hgrown.schedule

theorem sameArcs (hs : s.Sound agree) : s.SameArcs s' := by
  obtain ⟨new, hgrown, hnew⟩ := h.grown
  have hsame := hgrown.sameArcs hs h.enlarged.sound fun vertex hm => by
    rcases hnew vertex hm with rfl | ⟨id, _, rfl⟩
    · exact bare_new .real who.now
    · exact bare_new .virtual who.now
  rwa [show { s with labels := s'.labels } = s by rw [h.enlarged.same.1]] at hsame

end Located

end Action

end Arcbase
