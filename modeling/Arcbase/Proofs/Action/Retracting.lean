import Arcbase.Proofs.Action.Holding
import Arcbase.Proofs.Action.Retrying
set_option autoImplicit false

/-!
# Connects that are given up

A connect registers missing ends before it holds any.  If it then cannot hold them it
takes a virtual terminal out again, but leaves a real initial behind (`careful_connect`).
-/

namespace Arcbase.Action

open Store

variable {β γ : Type} {agree : Agreement} {G : List Guard} {who : Caller} {checked : Prop}

/-! ## Taking a terminal out again -/

theorem remove_locks (s : Store) (t : LockTable) (c : CellId) :
    ({ s with locks := t } : Store).remove c = { s.remove c with locks := t } := by
  have hlookup : ∀ key, (({ s with locks := t } : Store).modifyData c
      fun d => { d with deleted := true }).lookupKey key =
        (s.modifyData c fun d => { d with deleted := true }).lookupKey key := fun _ => rfl
  have hcell : (({ s with locks := t } : Store).modifyData c
      fun d => { d with deleted := true }).cell c =
        (s.modifyData c fun d => { d with deleted := true }).cell c := rfl
  simp only [remove, unlink, hlookup, hcell]
  split <;> rfl

/-- A virtual vertex that has been registered, but could not be held with others, is
taken out again. -/
theorem grown_collectUnheld {s s₁ : Store} {vertex : Cell} {t : LockTable} (hg : s.Guarded G)
    (hs₁ : s₁ = s.addCell vertex) (hfree : s.lookupKey vertex.key = none)
    (horphan : vertex.data.isOrphan = true) (hdown : s.locks.readonly = false)
    (hsettings : s.locks.SameSettings t) (ht : t.Accounts G) :
    ∃ s', (collectUnheld who [s.cells.size]).run { s₁ with locks := t } = (.ok (), s') ∧
      Grown [] s s' := by
  have hunheld : ∀ g ∈ G, g.item.slot ≠ s.cells.size := fun g hm => Nat.ne_of_lt (hg.item g hm).1
  have hextends : s.Extends { s₁ with locks := t } := by
    have h := extends_addCell s vertex
    rw [← hs₁] at h
    exact ⟨h.count, h.id, h.key⟩
  have hg₁ : Guarded { s₁ with locks := t } G := hg.transfer hextends ht fun _ hm => hm
  have hnew : s.cells.size < s₁.cells.size := by
    rw [hs₁, size_cells_addCell]
    exact Nat.lt_succ_self _
  obtain ⟨⟨g, t'⟩, hacq⟩ :=
    acquire_unguarded hg₁ (hsettings.readonly.trans hdown) hunheld who.thread
  have hg₂ : Guarded { s₁ with locks := t' } (g :: G) := hg₁.acquire hnew hacq
  have hwriter := (LockTable.open_of_acquire hg₁.accounts hacq).1
  have hslot : g.item.slot = s.cells.size := congrArg LockItem.slot (LockTable.acquire_ok hacq).2.1
  have hnone : Guard.onSlot g.item.slot G = [] := List.filter_eq_nil_iff.2 fun g' hm => by
    rw [hslot]
    simpa using hunheld g' hm
  have hdata : (({ s₁ with locks := t' } : Store).data s.cells.size).isOrphan = true := by
    have hlast : (s.addCell vertex).data s.cells.size = vertex.data := by
      rw [Store.data, cell_addCell, if_pos rfl]
    rw [← hs₁] at hlast
    exact hlast ▸ horphan
  have hdrop : ({ s₁ with locks := t' } : Store).drop g =
      { s₁.remove s.cells.size with locks := t'.release g } := by
    rw [drop_writer hg₂ hwriter, if_pos hnone, hslot, collectOrphan, if_pos hdata, remove_locks]
  refine ⟨({ s₁ with locks := t' } : Store).drop g, ?_, ?_⟩
  · simp only [collectUnheld, List.forM, run_bind, attempt, acquire, run_ofFun]
    rw [hacq]
    rfl
  · have hlocks : (s₁.remove s.cells.size).locks = s.locks := by
      rw [locks_remove, hs₁]
      rfl
    rw [hdrop]
    refine (hs₁ ▸ grown_addCell_remove hfree).trans_nil (grown_locks ?_)
    rw [hlocks]
    exact (hsettings.trans (LockTable.sameSettings_acquire hacq)).trans
      (LockTable.sameSettings_release t' g)

/-! ## Registering both ends -/

/-- What registering the terminals of a request comes to: nothing, or one virtual vertex. -/
theorem run_terminalCells {initial : String} {i : CellId} {terminals : Terminals} {s s' : Store}
    {cells added : List CellId}
    (hrun : (terminalCells who initial i terminals).run s = (.ok (cells, added), s')) :
    added = [] ∧ s' = { s with labels := s'.labels } ∨
      ∃ vertex : Cell, s.lookupKey vertex.key = none ∧ vertex.data.isOrphan = true ∧
        added = [s.cells.size] ∧ s' = s.addCell vertex := by
  cases terminals with
  | one t =>
    simp only [terminalCells] at hrun
    split at hrun
    · cases hrun
      exact .inl ⟨rfl, rfl⟩
    · rw [run_bind] at hrun
      cases hrun₁ : (findOrAdd who t .virtual).run s with
      | mk r s₁ =>
        rw [hrun₁] at hrun
        cases r with
        | error e => cases hrun
        | ok p =>
          obtain ⟨c, isNew⟩ := p
          cases hrun
          rcases run_findOrAdd hrun₁ with ⟨rfl, hs, _⟩ | ⟨rfl, hnone, rfl, hs⟩
          · exact .inl ⟨rfl, hs ▸ rfl⟩
          · exact .inr ⟨_, hnone, rfl, rfl, hs⟩
  | list ids =>
    have hlabels : Labelling (terminalCells who initial i (.list ids)) fun p => p.2 = [] := by
      refine labelling_bind (M := fun _ => True) (labelling_mapM fun t => ?_) fun _ _ =>
        labelling_pure rfl
      refine labelling_bind labelling_read fun found _ => ?_
      cases found with
      | none => exact labelling_fail
      | some c => exact labelling_pure trivial
    obtain ⟨hsame, hadded⟩ := hlabels s _ s' hrun
    exact .inl ⟨hadded _ rfl, hsame⟩

theorem final_terminalCells (initial : String) (i : CellId) (terminals : Terminals) :
    Final (terminalCells who initial i terminals) := by
  cases terminals with
  | one t =>
    simp only [terminalCells]
    split
    · exact avoids_pure _
    · exact avoids_bind (final_findOrAdd t .virtual) fun _ => avoids_pure _
  | list ids =>
    refine avoids_bind (avoids_mapM fun t => avoids_bind (avoids_read _) fun found => ?_)
      fun _ => avoids_pure _
    cases found with
    | none => exact avoids_fail rfl
    | some c => exact avoids_pure c

/-! ## Connecting -/

/-- What is registered for a call that then cannot hold all it needs is taken out again. -/
theorem grown_withdraw {s s₁ s' : Store} {added : List CellId} {t : LockTable} {e : Error}
    {r : Except Error β} (hg : s.Guarded G) (hdown : s.locks.readonly = false)
    (hadded : added = [] ∧ s₁ = { s with labels := s₁.labels } ∨ ∃ vertex : Cell,
      s.lookupKey vertex.key = none ∧ vertex.data.isOrphan = true ∧ added = [s.cells.size] ∧
        s₁ = s.addCell vertex)
    (hsettings : s.locks.SameSettings t) (ht : t.Accounts G)
    (hrun : (collectUnheld who added >>= fun _ => (fail e : Action β)).run
      { s₁ with locks := t } = (r, s')) : r = .error e ∧ Grown [] s s' := by
  rw [run_bind] at hrun
  rcases hadded with ⟨rfl, hsame⟩ | ⟨vertex, hfree, horphan, rfl, hs₁⟩
  · cases hrun
    rw [hsame]
    exact ⟨rfl, (grown_labels s _).trans_nil (grown_locks hsettings)⟩
  · obtain ⟨s₂, hcollect, hgrown⟩ := grown_collectUnheld hg hs₁ hfree horphan hdown hsettings ht
    rw [hcollect] at hrun
    cases hrun
    exact ⟨rfl, hgrown⟩

/-- A call that holds what it needs asks for no retry; before that it takes out again what it
has registered. -/
theorem grown_attempt_acquireMany {s s₁ s' : Store} {cells added : List CellId}
    {held : List Guard → Action β} (hheld : ∀ guards, Settled (held guards))
    (hg : s.Guarded G) (hdown : s.locks.readonly = false)
    (hadded : added = [] ∧ s₁ = { s with labels := s₁.labels } ∨ ∃ vertex : Cell,
      s.lookupKey vertex.key = none ∧ vertex.data.isOrphan = true ∧ added = [s.cells.size] ∧
        s₁ = s.addCell vertex)
    {e : Error} (hrun : (do
      match ← attempt (acquireMany who cells .writable) with
      | .error e =>
        collectUnheld who added
        fail e
      | .ok guards => held guards : Action β).run s₁ = (.error e, s'))
    (hsafe : e.isRetrySafe = true) : Grown [] s s' := by
  have hg₁ : s₁.locks.Accounts G ∧ s₁.locks = s.locks := by
    rcases hadded with ⟨_, hsame⟩ | ⟨vertex, _, _, _, rfl⟩
    · rw [hsame]
      exact ⟨hg.accounts, rfl⟩
    · exact ⟨hg.accounts, rfl⟩
  simp only [run_bind, attempt, acquireMany, run_ofFun] at hrun
  cases hacq : s₁.locks.acquireMany who.thread (cells.map s₁.lockItem) .writable with
  | mk r t =>
    rw [hacq] at hrun
    obtain ⟨hsettings, hr⟩ := LockTable.acquireMany_spec hg₁.1 hacq
    rw [hg₁.2] at hsettings
    cases r with
    | ok guards =>
      rw [hheld guards _ e s' hrun] at hsafe
      cases hsafe
    | error e₁ =>
      exact (grown_withdraw hg hdown hadded hsettings hr hrun).2

/-- A connect that cannot hold all ends leaves its initial. -/
theorem careful_connectAs (r : ConnectRequest) (relationship : LabelCode) (u : ArcUpdate)
    (gate : Option Gate) :
    Careful agree G who True [r.initial] (connectAs who r relationship u gate) := by
  intro s e s' _ hg hchecked hrun hsafe
  have hdown : s.locks.readonly = false := hchecked trivial
  rw [connectAs, run_bind] at hrun
  cases hrun₁ : (findOrAdd who r.initial .real).run s with
  | mk r₁ s₁ =>
    rw [hrun₁] at hrun
    cases r₁ with
    | error e₁ =>
      cases hrun
      rw [(final_findOrAdd r.initial .real).settled s e _ hrun₁] at hsafe
      cases hsafe
    | ok p =>
      obtain ⟨i, isNew⟩ := p
      have hgrown := grown_findOrAdd hdown hrun₁
      refine hgrown.trans_nil ?_
      dsimp only at hrun
      rw [run_bind] at hrun
      cases hrun₂ : (terminalCells who r.initial i r.terminals).run s₁ with
      | mk r₂ s₂ =>
        rw [hrun₂] at hrun
        cases r₂ with
        | error e₂ =>
          cases hrun
          rw [(final_terminalCells r.initial i r.terminals).settled s₁ e _ hrun₂] at hsafe
          cases hsafe
        | ok p =>
          obtain ⟨terminals, added⟩ := p
          exact grown_attempt_acquireMany
            (fun guards =>
              avoids_ensuring (final_connectHeld r relationship u gate i terminals).settled _)
            (Guarded.of_findOrAdd hg hrun₁) (hgrown.settings.readonly.trans hdown)
            (run_terminalCells hrun₂) hrun hsafe

theorem gateOf_error {s : Store} {condition : ArcCondition} {e : Error}
    (h : s.gateOf condition = .error e) : ∃ fault, e = .query fault := by
  simp only [gateOf, bind, Except.bind] at h
  split at h
  next hfilter =>
    cases h
    exact fault_of_filterOf hfilter
  next => cases h

theorem mapM_gateOf_error {s : Store} {condition : Option ArcCondition} {e : Error}
    (h : condition.mapM s.gateOf = .error e) : ∃ fault, e = .query fault := by
  cases condition with
  | none => cases h
  | some condition =>
    cases hgate : s.gateOf condition with
    | error e₁ =>
      simp only [Option.mapM_some, hgate] at h
      cases h
      exact gateOf_error hgate
    | ok gate =>
      simp only [Option.mapM_some, hgate] at h
      cases h

theorem labelling_terminalIds (r : ConnectRequest) : Labelling (terminalIds r) fun _ => True := by
  unfold terminalIds
  split
  · exact labelling_pure trivial
  · exact labelling_bind labelling_read fun _ _ => labelling_bind labelling_refuse fun _ _ =>
      labelling_pure trivial

theorem final_terminalIds (r : ConnectRequest) : Final (terminalIds r) := by
  unfold terminalIds
  split
  · exact avoids_pure _
  · exact avoids_bind (avoids_read _) fun _ => avoids_bind (final_refuse _) fun _ =>
      avoids_pure _

theorem careful_connectWith (r : ConnectRequest) (u : ArcUpdate) :
    Careful agree G who checked [r.initial] (connectWith who r u) := by
  unfold connectWith
  refine careful_checkWritable_bind (careful_read_bind fun _ => careful_refuse_bind ?_)
  split
  · exact (avoids_fail rfl).careful
  · refine careful_readExcept_bind (fun _ _ he => ?_) fun gate => ?_
    · obtain ⟨_, rfl⟩ := mapM_gateOf_error he
      rfl
    refine careful_labelling_bind (labelling_terminalIds r) (final_terminalIds r).settled
      fun ids _ => ?_
    split
    · exact (avoids_pure _).careful
    · refine careful_read_bind fun _ => careful_refuse_bind ?_
      exact careful_labelling_bind labelling_encodeRelationship
        (final_encodeRelationship _).settled
          fun relationship _ => careful_connectAs r relationship u gate

theorem careful_bind_settled {ids : List String} {a : Action β} {f : β → Action γ}
    (ha : Careful agree G who checked ids a) (hf : ∀ x, Settled (f x)) :
    Careful agree G who checked ids (a >>= f) := by
  intro s e s' hs hg hchecked hrun hsafe
  rw [run_bind] at hrun
  cases hrun₁ : a.run s with
  | mk r s₁ =>
    rw [hrun₁] at hrun
    cases r with
    | error e₁ =>
      cases hrun
      exact ha s e _ hs hg hchecked hrun₁ hsafe
    | ok x =>
      rw [hf x s₁ e s' hrun] at hsafe
      cases hsafe

theorem ofRequest_error {r : ArcRequest} {e : Error} (h : ArcUpdate.ofRequest r = .error e) :
    ∃ fault, e = .arc (.invalidValue r.kind fault) := by
  have hvalue : ∀ {v : Option Binary64} {e : Error},
      (v.mapM fun v => (r.kind.coerce v).mapError fun fault =>
        Error.arc (.invalidValue r.kind fault)) = .error e →
          ∃ fault, e = .arc (.invalidValue r.kind fault) := by
    intro v e he
    cases v with
    | none => cases he
    | some v =>
      cases hcoerce : r.kind.coerce v with
      | error fault =>
        simp only [Option.mapM_some, hcoerce] at he
        cases he
        exact ⟨fault, rfl⟩
      | ok x =>
        simp only [Option.mapM_some, hcoerce] at he
        cases he
  simp only [ArcUpdate.ofRequest, bind, Except.bind] at h
  split at h
  next hfault =>
    cases h
    exact hvalue hfault
  next =>
    split at h
    · cases h
    · split at h
      · cases h
        exact ⟨_, rfl⟩
      · cases h

theorem final_ofRequest (r : ArcRequest) : Final (ofExcept (ArcUpdate.ofRequest r)) :=
  avoids_ofExcept fun e he => by
    obtain ⟨_, rfl⟩ := ofRequest_error he
    rfl

theorem labelling_ofExcept {x : Except Error β} : Labelling (ofExcept x) fun _ => True := by
  intro s r s' hrun
  cases hrun
  exact ⟨rfl, fun _ _ => trivial⟩

theorem careful_connect (r : ConnectRequest) :
    Careful agree G who checked [r.initial] (connect who r) :=
  careful_labelling_bind labelling_ofExcept (final_ofRequest r.arc).settled
    fun u _ => careful_bind_settled (careful_connectWith r u) fun _ => avoids_pure _

theorem careful_writeValue (r : ConnectRequest) (u : ArcUpdate) {fault : Error}
    (hfault : fault.isRetrySafe = false) :
    Careful agree G who checked [r.initial]
      (do
        match (← connectWith who r u).2 with
        | some value => return value
        | none => fail fault) := by
  refine careful_bind_settled (careful_connectWith r u) fun written => ?_
  split
  · exact avoids_pure _
  · exact avoids_fail hfault

theorem careful_addTo (initial relationship terminal : String) (kind : ArcKind)
    (delta : Binary64) :
    Careful agree G who checked [initial] (addTo who initial relationship terminal kind delta) := by
  unfold addTo
  dsimp only
  split
  · exact careful_labelling_bind (Q := fun _ => True) labelling_fail (avoids_fail rfl)
      fun _ _ => careful_writeValue _ _ rfl
  · exact careful_writeValue _ _ rfl

theorem careful_count (initial relationship terminal : String) (delta : Option Int) :
    Careful agree G who checked [initial] (count who initial relationship terminal delta) :=
  careful_bind_settled (careful_addTo _ _ _ _ _) fun _ => avoids_pure _

theorem careful_accumulate (initial relationship terminal : String) (delta : Option Binary64) :
    Careful agree G who checked [initial] (accumulate who initial relationship terminal delta) :=
  careful_bind_settled (careful_addTo _ _ _ _ _) fun _ => avoids_pure _

/-! ## Scheduling a relationship -/

/-- Guards on vertices with arcs are given up without taking any vertex out. -/
theorem dropAll_of_degree {guards : List Guard} {s : Store}
    (h : ∀ g ∈ guards, (s.data g.item.slot).degree ≠ 0) :
    s.dropAll guards = { s with locks := s.locks.releaseAll guards } := by
  induction guards generalizing s with
  | nil => rfl
  | cons g rest ih =>
    have hnot : (s.data g.item.slot).isOrphan = false := by
      have hdegree := h g List.mem_cons_self
      simp [VertexData.isOrphan, hdegree]
    have hdrop : s.drop g = { s with locks := s.locks.release g } := by
      simp only [drop, collectOrphan, hnot, Bool.false_eq_true, if_false, ite_self]
    have hrest := ih (s := s.drop g) fun g' hm => by
      rw [hdrop]
      exact h g' (List.mem_cons_of_mem g hm)
    have hcons : s.dropAll (g :: rest) = (s.drop g).dropAll rest := rfl
    rw [hcons, hrest, hdrop]
    rfl

/-- The ends of an arc have arcs. -/
theorem degree_of_hasOutArc {s : Store} (hs : s.Sound agree) {i t : CellId} (hi : s.Live i)
    (ht : s.Live t) {filter : ArcFilter} (h : s.hasOutArc i t filter = true) :
    (s.data i).degree ≠ 0 ∧ (s.data t).degree ≠ 0 := by
  obtain ⟨a, ha, _⟩ := List.any_eq_true.1 h
  have hlisted : (⟨s.keyOf i, s.keyOf t, a⟩ : PlacedArc) ∈ s.arcs :=
    (mem_arcs_iff hs.placed).2 ⟨i, hi, rfl, ha⟩
  constructor
  · exact fun hz => (degree_eq_zero_iff hs hi).1 hz _ hlisted (.inl rfl)
  · exact fun hz => (degree_eq_zero_iff hs ht).1 hz _ hlisted (.inr rfl)

/-- Either not all of the vertices are given, or an action is carried out while they are held. -/
theorem run_holdingMany {cells : List CellId} {body : Action β} {s s' : Store}
    {answer : Except Error β} (hs : s.Sound agree) (hg : s.Guarded G) (hl : AllLive cells s)
    (hrun : (holdingMany who cells .writable body).run s = (answer, s')) :
    (∃ e locks, answer = .error e ∧ s.locks.SameSettings locks ∧ s' = { s with locks }) ∨
      ∃ new locks s₁, GivenAll (fun _ => True) who .writable cells new ∧
        Guarded { s with locks } (new ++ G) ∧ s.locks.SameSettings locks ∧
        body.run { s with locks } = (answer, s₁) ∧ s' = s₁.dropAll new := by
  rw [holdingMany, run_bind] at hrun
  cases hacq : (acquireMany who cells .writable).run s with
  | mk r s₁ =>
    have hacquire : Turns agree (fun _ => True) G (AllLive cells) (acquireMany who cells .writable)
        (fun new => new ++ G) G fun new s =>
          GivenAll (fun _ => True) who .writable cells new ∧ AllLive cells s :=
      turns_acquireMany (fun _ _ => trivial) (fun s hl c hc => (hl c hc).1)
        (frameStable_allLive cells)
    have hturns := hacquire s r s₁ hs hg hl hacq
    have hlocks : s.locks.SameSettings s₁.locks ∧ s₁ = { s with locks := s₁.locks } := by
      simp only [acquireMany, run_ofFun] at hacq
      cases ht : s.locks.acquireMany who.thread (cells.map s.lockItem) .writable with
      | mk r₁ t =>
        rw [ht] at hacq
        cases hacq
        exact ⟨(LockTable.acquireMany_spec hg.accounts ht).1, rfl⟩
    obtain ⟨hsettings, hsame⟩ := hlocks
    rw [hacq] at hrun
    cases r with
    | error e =>
      cases hrun
      exact .inl ⟨e, _, rfl, hsettings, hsame⟩
    | ok new =>
      obtain ⟨_, hg₁, hgiven, _⟩ := hturns
      rw [hsame] at hg₁ hrun
      simp only [ensuring, run_ofFun] at hrun
      obtain ⟨hanswer, hafter⟩ := Prod.mk.inj hrun
      exact .inr ⟨new, s₁.locks, _, hgiven, hg₁, hsettings, Prod.ext hanswer rfl, hafter.symm⟩

/-- A failure while vertices are held leaves no trace if it has left none before they are
given up, and all of them have arcs. -/
theorem grown_holdingMany {cells : List CellId} {body : Action β} {s s' : Store} {e : Error}
    (hs : s.Sound agree) (hg : s.Guarded G) (hl : AllLive cells s)
    (hbody : ∀ t new s₁, Guarded { s with locks := t } (new ++ G) → s.locks.SameSettings t →
      body.run { s with locks := t } = (.error e, s₁) →
        Grown [] { s with locks := t } s₁ ∧ ∀ c ∈ cells, (s₁.data c).degree ≠ 0)
    (hrun : (holdingMany who cells .writable body).run s = (.error e, s')) : Grown [] s s' := by
  rcases run_holdingMany hs hg hl hrun with
    ⟨_, locks, _, hsettings, rfl⟩ | ⟨new, locks, s₁, hgiven, hg₁, hsettings, hrun₁, rfl⟩
  · exact grown_locks hsettings
  · obtain ⟨hgrown, hdegree⟩ := hbody locks new s₁ hg₁ hsettings hrun₁
    have hslots : ∀ g ∈ new, (s₁.data g.item.slot).degree ≠ 0 := fun g hm =>
      hdegree _ (hgiven.slots.mem_iff.2 (List.mem_map_of_mem hm))
    rw [dropAll_of_degree hslots]
    exact ((grown_locks hsettings).trans_nil hgrown).trans_nil
      (grown_locks (LockTable.sameSettings_releaseAll s₁.locks new))

/-- A connect whose initial is there registers nothing. -/
theorem grown_connect_of_lookup {r : ConnectRequest} {s s' : Store} {i : CellId} {e : Error}
    (hs : s.Sound agree) (hg : s.Guarded G) (hdown : s.locks.readonly = false)
    (hrun : (connect who r).run s = (.error e, s')) (hsafe : e.isRetrySafe = true)
    (hi : s.lookup r.initial = some i) : Grown [] s s' := by
  have hkey : s.lookupKey (.of r.initial) = some i := (Option.filter_eq_some_iff.1 hi).1
  have hfresh : s.fresh who [r.initial] = [] := by
    rw [fresh, List.filter_singleton, hkey]
    split <;> rfl
  have hcareful : Careful agree G who True [r.initial] (connect who r) := careful_connect r
  exact hfresh ▸ hcareful s e s' hs hg (fun _ => hdown) hrun hsafe

/-- An arc is written in place of one that is there. -/
theorem run_connect_of_hasOutArc {r : ConnectRequest} {missing : Error} {i t : CellId}
    {filter : ArcFilter} {s s' : Store} {e : Error} (hmissing : missing.isRetrySafe = false)
    (hrun : (do
      if ← read (·.hasOutArc i t filter) then
        let _ ← connect who r
      else fail missing : Action Unit).run s = (.error e, s')) (hsafe : e.isRetrySafe = true) :
    s.hasOutArc i t filter = true ∧ (connect who r).run s = (.error e, s') := by
  rw [run_bind] at hrun
  simp only [read, run_ofFun] at hrun
  cases harc : s.hasOutArc i t filter with
  | false =>
    rw [harc, if_neg Bool.false_ne_true] at hrun
    cases hrun
    rw [hmissing] at hsafe
    cases hsafe
  | true =>
    rw [harc, if_pos rfl, run_bind] at hrun
    refine ⟨rfl, ?_⟩
    cases hrun₁ : (connect who r).run s with
    | mk r₁ s₁ =>
      rw [hrun₁] at hrun
      cases r₁ with
      | error e₁ =>
        cases hrun
        rfl
      | ok n => cases hrun

/-- An arc that is to expire is there already, so that its ends are. -/
theorem careful_markArcExpiring (initial relationship terminal : String) (time : UInt32) :
    Careful agree G who checked []
      (markArcExpiring who initial relationship terminal time) := by
  unfold markArcExpiring
  refine careful_checkWritable_bind ?_
  refine careful_readExcept_bind (fun _ _ => filterOf_error) fun f => ?_
  intro s e s' hs hg hchecked hrun hsafe
  rw [fresh_nil]
  simp only [run_bind, read, run_ofFun] at hrun
  cases hinitial : s.lookup initial with
  | none =>
    rw [hinitial] at hrun
    cases hrun
    cases hsafe
  | some i =>
    cases hterminal : s.lookup terminal with
    | none =>
      rw [hinitial, hterminal] at hrun
      cases hrun
      cases hsafe
    | some t =>
      rw [hinitial, hterminal] at hrun
      have hi := (hs.placed.of_lookup hinitial).1
      have ht := (hs.placed.of_lookup hterminal).1
      have hends : ∀ c ∈ (if i = t then [i] else [i, t]), c = i ∨ c = t := by
        intro c hc
        split at hc
        · exact .inl (List.mem_singleton.1 hc)
        · simpa using hc
      have hl : AllLive (if i = t then [i] else [i, t]) s := fun c hc =>
        (hends c hc).elim (fun e => e ▸ hi) fun e => e ▸ ht
      refine grown_holdingMany hs hg hl (fun locks new s₁ hg₁ hsettings hbody => ?_) hrun
      have hs₁ : Sound agree { s with locks } := hs.withLocks locks
      obtain ⟨harc, hconnect⟩ := run_connect_of_hasOutArc rfl hbody hsafe
      have hdown : locks.readonly = false := hsettings.readonly.trans (hchecked trivial)
      have hgrown := grown_connect_of_lookup hs₁ hg₁ hdown hconnect hsafe hinitial
      refine ⟨hgrown, fun c hc => ?_⟩
      have hdegree := degree_of_hasOutArc hs₁ hi ht harc
      rcases hends c hc with rfl | rfl
      · rw [Store.data, hgrown.cell c hi.1]
        exact hdegree.1
      · rw [Store.data, hgrown.cell c ht.1]
        exact hdegree.2

end Arcbase.Action
