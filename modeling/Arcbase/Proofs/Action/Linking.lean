import Arcbase.Proofs.Action.Registering
import Arcbase.Proofs.Store.Dropping
import Arcbase.Proofs.Store.Linking
set_option autoImplicit false

/-!
# How a connect goes

A connect goes in one of four ways (`ConnectRun`).  It is withdrawn before it holds its ends;
it has no terminals at all; one of the terminals that its condition lets pass is refused; or
it writes its arcs to all of these.  In each way it is told which vertices it has registered
and what it has held.
-/

namespace Arcbase

/-- What may stop a connect before it holds its ends. -/
inductive Error.Early : Error → Prop where
  | access (cause : AccessError) : Early (.access cause)
  | vertex (fault : VertexFault) : Early (.vertex fault)
  | query (fault : QueryFault) : Early (.query fault)

namespace Action

open Store

variable {agree : Agreement} {s s' s₁ : Store} {G : List Guard} {who : Caller} {r : ConnectRequest}
  {u : ArcUpdate} {gate : Option Gate} {code : LabelCode} {i : CellId} {cells : List CellId}

/-! ## Once the ends are held -/

/-- Writes the arcs to one terminal more. -/
def connectNext (who : Caller) (r : ConnectRequest) (code : LabelCode) (u : ArcUpdate) (i : CellId)
    (acc : Nat × Option ArcValue) (t : CellId) : Action (Nat × Option ArcValue) := do
  let (isNew, value) ← ofFun fun s =>
    let (r, s) := s.connectTo who.now r code u i t
    (.ok r, s)
  return (if isNew then acc.1 + 1 else acc.1, some value)

theorem connectHeld_eq (who : Caller) (r : ConnectRequest) (code : LabelCode) (u : ArcUpdate)
    (gate : Option Gate) (i : CellId) (cells : List CellId) :
    connectHeld who r code u gate i cells = (do
      let s ← read id
      let passing ← ofExcept ((admitted s r.arc code gate i cells).mapError .arc)
      update (·.modifyData i (·.promote who.now))
      passing.foldlM (connectNext who r code u i) (0, none)) := rfl

theorem run_connectNexts (passing : List CellId) (acc : Nat × Option ArcValue) (s : Store) :
    (passing.foldlM (connectNext who r code u i) acc).run s =
      (.ok (connectAll who.now r code u i passing acc s).1,
        (connectAll who.now r code u i passing acc s).2) := by
  induction passing generalizing acc s with
  | nil => rfl
  | cons t rest ih =>
    rw [List.foldlM_cons, run_bind]
    exact ih ..

theorem run_connectHeld (s : Store) : (connectHeld who r code u gate i cells).run s =
    match admitted s r.arc code gate i cells with
    | .error fault => (.error (.arc fault), s)
    | .ok passing =>
      let (answer, s) := connectAll who.now r code u i passing (0, none)
        (s.modifyData i (·.promote who.now))
      (.ok answer, s) := by
  rw [connectHeld_eq]
  simp only [run_bind, read, ofExcept, run_ofFun, update, id, run_connectNexts]
  cases admitted s r.arc code gate i cells <;> rfl

/-! ## The ways in which a connect may go -/

/-- The ends of a request are held, its relationship has a code, and its condition is known. -/
structure HeldEnds (agree : Agreement) (who : Caller) (r : ConnectRequest) (gate : Option Gate)
    (code : LabelCode) (G : List Guard) (s : Store) (i : CellId) (cells : List CellId)
    (new : List Guard) (s₁ : Store) (locks : LockTable) : Prop where
  probed : r.condition.mapM s.gateOf = .ok gate
  distinct : r.terminals.ids.Nodup
  grown : s.labels.Grows s₁.labels
  coded : s₁.labels.relationships.lookup? r.arc.relationship = some code
  located : Located agree who r G i cells { s with labels := s₁.labels } s₁
  given : GivenAll (fun _ => True) who .writable (i :: cells.filter (· ≠ i)) new
  guarded : Guarded { s₁ with locks } (new ++ G)
  encoded : s.labels.encodeRelationship r.arc.relationship = (.ok code, s₁.labels)
  settings : s.locks.SameSettings locks

/-- The ways in which a connect may go. -/
inductive ConnectRun (agree : Agreement) (who : Caller) (r : ConnectRequest) (u : ArcUpdate)
    (G : List Guard) (s : Store) : Except Error (Nat × Option ArcValue) → Store → Prop where
  | withdrawn {e : Error} {new : List Cell} {s' : Store} (early : e.Early)
      (grown : Grown new s s') (bare : ∀ vertex ∈ new, vertex = .new r.initial .real who.now) :
      ConnectRun agree who r u G s (.error e) s'
  | idle {gate : Option Gate} (probed : r.condition.mapM s.gateOf = .ok gate)
      (unaimed : r.terminals.ids = []) : ConnectRun agree who r u G s (.ok (0, none)) s
  | refused {gate : Option Gate} {code : LabelCode} {i : CellId} {cells : List CellId}
      {new : List Guard} {s₁ : Store} {locks : LockTable} {fault : ArcError}
      (held : HeldEnds agree who r gate code G s i cells new s₁ locks)
      (refusal : admitted { s₁ with locks } r.arc code gate i cells = .error fault) :
      ConnectRun agree who r u G s (.error (.arc fault)) (({ s₁ with locks } : Store).dropAll new)
  | written {gate : Option Gate} {code : LabelCode} {i : CellId} {cells passing : List CellId}
      {new : List Guard} {s₁ s₂ : Store} {locks : LockTable} {answer : Nat × Option ArcValue}
      (held : HeldEnds agree who r gate code G s i cells new s₁ locks)
      (passes : admitted { s₁ with locks } r.arc code gate i cells = .ok passing)
      (writes : connectAll who.now r code u i passing (0, none)
        (({ s₁ with locks } : Store).modifyData i (·.promote who.now)) = (answer, s₂)) :
      ConnectRun agree who r u G s (.ok answer) (s₂.dropAll new)

theorem ConnectRun.unchanged {e : Error} (h : e.Early) :
    ConnectRun agree who r u G s (.error e) s :=
  .withdrawn h (.refl s) fun _ hm => absurd hm List.not_mem_nil

/-- The same from a store with fewer labels. -/
theorem ConnectRun.unlabelled {labels : Labels} {e : Error}
    (h : e.Early) : ConnectRun agree who r u G s (.error e) { s with labels } :=
  .withdrawn h (grown_labels s labels) fun _ hm => absurd hm List.not_mem_nil

theorem early_of_acquireMany {t t' : LockTable} {me : Thread} {items : List LockItem}
    {mode : LockMode} {e : Error} (h : t.acquireMany me items mode = (.error e, t')) : e.Early := by
  simp only [LockTable.acquireMany] at h
  split at h
  · cases h
    exact .vertex _
  · cases hrun : LockTable.acquireInOrder me mode
      (items.mergeSort fun a b => a.ordinal ≤ b.ordinal) [] t with
    | mk outcome t₁ =>
      rw [hrun] at h
      cases outcome with
      | ok guards => cases h
      | error cause =>
        cases h
        exact .access cause

/-! ## Running a connect -/

theorem run_read_bind {α β : Type} (f : Store → α) (rest : α → Action β) (s : Store) :
    (read f >>= rest).run s = (rest (f s)).run s := by
  rw [run_bind]
  rfl

/-- A list of terminals is in order if they are different, and there, and none is the initial. -/
theorem terminalFault?_eq_none_iff {initial : String} {seen ids : List String} :
    terminalFault? s initial seen ids = none ↔
      ids.Nodup ∧ ∀ t ∈ ids, t ∉ seen ∧ t ≠ initial ∧ s.contains t = true := by
  induction ids generalizing seen with
  | nil => simp [terminalFault?]
  | cons t rest ih =>
    rw [terminalFault?, List.nodup_cons, List.forall_mem_cons]
    by_cases hinitial : t = initial
    · simp [hinitial]
    by_cases hseen : t ∈ seen
    · simp [hinitial, hseen]
    by_cases hthere : s.contains t = true
    · -- the terminal has been seen by those that follow
      simp only [hinitial, hseen, hthere, List.contains_iff_mem, if_false, Bool.not_true,
        Bool.false_eq_true, ih, List.mem_cons, not_or]
      grind
    · simp [hinitial, hseen, hthere]

theorem run_terminalIds (r : ConnectRequest) (s : Store) :
    (∃ fault, (terminalIds r).run s = (.error (.vertex fault), s)) ∨
      (terminalIds r).run s = (.ok r.terminals.ids, s) ∧ r.terminals.ids.Nodup := by
  unfold terminalIds Terminals.ids
  cases r.terminals with
  | one t => exact .inr ⟨rfl, List.nodup_singleton t⟩
  | list ids =>
    simp only [run_bind, read, run_ofFun]
    cases hfault : terminalFault? s r.initial [] ids with
    | some fault => exact .inl ⟨fault, rfl⟩
    | none => exact .inr ⟨rfl, (terminalFault?_eq_none_iff.1 hfault).1⟩

theorem Checked.distinct (h : Checked r s) : r.terminals.ids.Nodup := by
  rcases run_terminalIds r s with ⟨fault, hids⟩ | ⟨_, hnodup⟩
  · cases hids.symm.trans h.terminals
  · exact hnodup

/-- What comes once the condition is known. -/
theorem run_connectProbed {answer : Except Error (Nat × Option ArcValue)}
    (hrun : (do
      let ids ← terminalIds r
      if ids.isEmpty then return (0, none)
      else
        refuse (← read fun s => ids.findSome? s.identifierFault?)
        connectAs who r (← encodeRelationship r.arc.relationship) u gate :
          Action (Nat × Option ArcValue)).run s = (answer, s')) :
    (∃ e : Error, e.Early ∧ answer = .error e ∧ s' = s) ∨
      (terminalIds r).run s = (.ok r.terminals.ids, s) ∧
        (∀ t ∈ r.terminals.ids, s.identifierFault? t = none) ∧
          (r.terminals.ids = [] → answer = .ok (0, none) ∧ s' = s) := by
  rw [run_bind] at hrun
  rcases run_terminalIds r s with ⟨fault, hids⟩ | ⟨hids, _⟩
  · rw [hids] at hrun
    cases hrun
    exact .inl ⟨_, .vertex fault, rfl, rfl⟩
  · rw [hids] at hrun
    dsimp only at hrun
    split at hrun
    next hempty =>
      cases hrun
      refine .inr ⟨hids, fun t ht => ?_, fun _ => ⟨rfl, rfl⟩⟩
      rw [List.isEmpty_iff.1 hempty] at ht
      exact absurd ht List.not_mem_nil
    next hempty =>
      rw [run_read_bind, run_bind] at hrun
      cases hnamed : r.terminals.ids.findSome? s.identifierFault? with
      | some fault =>
        rw [hnamed] at hrun
        cases hrun
        exact .inl ⟨_, .vertex fault, rfl, rfl⟩
      | none =>
        exact .inr ⟨hids, List.findSome?_eq_none_iff.1 hnamed, fun hnil =>
          absurd (List.isEmpty_iff.2 hnil) hempty⟩

/-- A connect fails for one of its arguments before it does anything, or they are in order. -/
theorem run_connectWith_cases {answer : Except Error (Nat × Option ArcValue)}
    (hrun : (connectWith who r u).run s = (answer, s')) :
    (∃ e : Error, e.Early ∧ answer = .error e ∧ s' = s) ∨
      Checked r s ∧ ∃ gate, r.condition.mapM s.gateOf = .ok gate ∧
        (r.terminals.ids = [] → answer = .ok (0, none) ∧ s' = s) := by
  rw [connectWith, run_bind, run_checkWritable] at hrun
  cases hup : s.locks.readonly with
  | true =>
    rw [hup, if_pos rfl] at hrun
    cases hrun
    exact .inl ⟨_, .access _, rfl, rfl⟩
  | false =>
    rw [hup, if_neg Bool.false_ne_true] at hrun
    dsimp only at hrun
    rw [run_read_bind, run_bind] at hrun
    cases hinitial : s.identifierFault? r.initial with
    | some fault =>
      rw [hinitial] at hrun
      cases hrun
      exact .inl ⟨_, .vertex fault, rfl, rfl⟩
    | none =>
      rw [hinitial, refuse, run_pure] at hrun
      dsimp only at hrun
      split at hrun
      · cases hrun
        exact .inl ⟨_, .query _, rfl, rfl⟩
      next hproper =>
        rw [run_read_bind, run_bind] at hrun
        cases probed : r.condition.mapM s.gateOf with
        | error e =>
          rw [probed] at hrun
          cases hrun
          obtain ⟨fault, rfl⟩ := mapM_gateOf_error probed
          exact .inl ⟨_, .query fault, rfl, rfl⟩
        | ok gate =>
          rw [probed] at hrun
          rcases run_connectProbed hrun with hearly | ⟨hids, hnamed, hidle⟩
          · exact .inl hearly
          · exact .inr ⟨⟨hup, hinitial, hproper, hids, hnamed⟩, gate, rfl, hidle⟩

/-- What comes once both ends are there. -/
theorem run_connectEnds {labels : Labels} {answer : Except Error (Nat × Option ArcValue)}
    {isNew : Bool} {added : List CellId} {s₀ : Store} (hs : s.Sound agree) (hg : s.Guarded G)
    (hup : s.locks.readonly = false) (probed : r.condition.mapM s.gateOf = .ok gate)
    (distinct : r.terminals.ids.Nodup) (grown : s.labels.Grows labels)
    (coded : labels.relationships.lookup? r.arc.relationship = some code)
    (encoded : s.labels.encodeRelationship r.arc.relationship = (.ok code, labels))
    (hinitial : (findOrAdd who r.initial .real).run { s with labels } = (.ok (i, isNew), s₀))
    (hterminals : (terminalCells who r.initial i r.terminals).run s₀ = (.ok (cells, added), s₁))
    (hrun : (do
      match ← attempt (acquireMany who (i :: cells.filter (· ≠ i)) .writable) with
      | .error e =>
        collectUnheld who added
        fail e
      | .ok guards =>
        ensuring (connectHeld who r code u gate i cells) fun s => s.dropAll guards :
          Action (Nat × Option ArcValue)).run s₁ = (answer, s')) :
    ConnectRun agree who r u G s answer s' := by
  have hs' : Sound agree { s with labels } := hs.withLabels labels
  have hg' : Guarded { s with labels } G := ⟨hg.accounts, hg.item⟩
  have located := located_of_runs hs' hg' hinitial hterminals
  obtain rfl : s₁.labels = labels := located.enlarged.same.1
  have hlive : AllLive (i :: cells.filter (· ≠ i)) s₁ := by
    refine allLive_cons.2 ⟨located.live_initial, fun c hc => ?_⟩
    exact located.live_of_mem (List.mem_filter.1 hc).1
  have hacquire : Turns agree (fun _ => True) G (AllLive (i :: cells.filter (· ≠ i)))
      (acquireMany who (i :: cells.filter (· ≠ i)) .writable) (fun new => new ++ G) G fun new s =>
        GivenAll (fun _ => True) who .writable (i :: cells.filter (· ≠ i)) new ∧
          AllLive (i :: cells.filter (· ≠ i)) s :=
    turns_acquireMany (fun _ _ => trivial) (fun s hl c hc => (hl c hc).1) (frameStable_allLive _)
  cases hacq : s₁.locks.acquireMany who.thread ((i :: cells.filter (· ≠ i)).map s₁.lockItem)
      .writable with
  | mk outcome locks =>
    have hrun₁ : (acquireMany who (i :: cells.filter (· ≠ i)) .writable).run s₁ =
        (outcome, { s₁ with locks }) := by
      simp only [acquireMany, run_ofFun, hacq]
    have hturns := hacquire s₁ _ _ located.enlarged.sound located.enlarged.guarded hlive hrun₁
    simp only [run_bind, attempt, run_ofFun, hrun₁] at hrun
    cases outcome with
    | error e =>
      obtain ⟨hfound, _, new, hgrown, hnew⟩ := enlarged_findOrAdd hs' hg' hinitial
      have hlocks : s₁.locks = s₀.locks :=
        located.enlarged.locks.trans hfound.locks.symm
      have hsettings := (LockTable.acquireMany_spec located.enlarged.guarded.accounts hacq).1
      have hup₀ : s₀.locks.readonly = false := (congrArg _ hfound.locks).trans hup
      obtain ⟨rfl, hwithdraw⟩ := grown_withdraw hfound.guarded hup₀ (run_terminalCells hterminals)
        (hlocks ▸ hsettings) hturns.2.accounts hrun
      exact .withdrawn (early_of_acquireMany hacq)
        (((grown_labels s _).nil_trans hgrown).trans_nil hwithdraw) hnew
    | ok new =>
      obtain ⟨_, guarded, given, _⟩ := hturns
      have settings := (LockTable.acquireMany_spec located.enlarged.guarded.accounts hacq).1
      have held : HeldEnds agree who r gate code G s i cells new s₁ locks :=
        ⟨probed, distinct, grown, coded, located, given, guarded, encoded,
          located.enlarged.locks ▸ settings⟩
      simp only [ensuring, run_ofFun, run_connectHeld] at hrun
      cases hadmitted : admitted { s₁ with locks } r.arc code gate i cells with
      | error fault =>
        rw [hadmitted] at hrun
        cases hrun
        exact .refused held hadmitted
      | ok passing =>
        rw [hadmitted] at hrun
        cases hrun
        exact .written held hadmitted rfl

theorem run_connectAs {labels : Labels} {answer : Except Error (Nat × Option ArcValue)}
    (hs : s.Sound agree) (hg : s.Guarded G) (hup : s.locks.readonly = false)
    (probed : r.condition.mapM s.gateOf = .ok gate) (distinct : r.terminals.ids.Nodup)
    (grown : s.labels.Grows labels)
    (coded : labels.relationships.lookup? r.arc.relationship = some code)
    (encoded : s.labels.encodeRelationship r.arc.relationship = (.ok code, labels))
    (hrun : (connectAs who r code u gate).run { s with labels } = (answer, s')) :
    ConnectRun agree who r u G s answer s' := by
  rw [connectAs, run_bind] at hrun
  cases hinitial : (findOrAdd who r.initial .real).run { s with labels } with
  | mk outcome s₀ =>
    rw [hinitial] at hrun
    cases outcome with
    | error e =>
      cases hrun
      obtain ⟨rfl, fault, rfl⟩ := run_findOrAdd_error hinitial
      exact .unlabelled (.vertex fault)
    | ok p =>
      obtain ⟨i, isNew⟩ := p
      dsimp only at hrun
      rw [run_bind] at hrun
      cases hterminals : (terminalCells who r.initial i r.terminals).run s₀ with
      | mk outcome s₁ =>
        rw [hterminals] at hrun
        cases outcome with
        | error e =>
          cases hrun
          obtain ⟨rfl, fault, rfl⟩ := run_terminalCells_error hterminals
          obtain ⟨_, _, new, hgrown, hnew⟩ := enlarged_findOrAdd (hs.withLabels labels)
            ⟨hg.accounts, hg.item⟩ hinitial
          exact .withdrawn (.vertex fault) ((grown_labels s labels).nil_trans hgrown) hnew
        | ok found =>
          exact run_connectEnds hs hg hup probed distinct grown coded encoded hinitial hterminals
            hrun

/-- A relationship that has no code yet is given one, if there is any left. -/
theorem encodeRelationship_cases {l l' : Labels} {label : String}
    {outcome : Except Error LabelCode} (hl : l.Valid)
    (h : l.encodeRelationship label = (outcome, l')) :
    (∃ fault, outcome = .error (.query fault)) ∨
      ∃ code, outcome = .ok code ∧ l.Grows l' ∧ l'.relationships.lookup? label = some code := by
  have hgrows := Labels.Grows.relationship (l := l) .refl label
  rw [h] at hgrows
  cases outcome with
  | error e =>
    left
    have he := congrArg Prod.fst h
    simp only [Labels.encodeRelationship] at he
    cases hencoded : (l.relationships.encode label).1 with
    | none =>
      rw [hencoded] at he
      exact ⟨_, he.symm⟩
    | some code =>
      rw [hencoded] at he
      cases he
  | ok code =>
    have hdecode : (l.encodeRelationship label).2.relationships.decode? code = some label :=
      hl.decode_relationship (by rw [h])
    rw [h] at hdecode
    exact .inr ⟨code, rfl, hgrows, (hgrows.valid hl.relationships _ _).2 hdecode⟩

section Running

variable {answer : Except Error (Nat × Option ArcValue)} (hs : s.Sound agree) (hg : s.Guarded G)
  (hl : s.labels.Valid)
include hs hg hl

/-- What comes once the identifiers are known to be sound. -/
theorem run_connectNamed (hup : s.locks.readonly = false)
    (probed : r.condition.mapM s.gateOf = .ok gate) (distinct : r.terminals.ids.Nodup)
    (hrun : (do connectAs who r (← encodeRelationship r.arc.relationship) u gate :
      Action (Nat × Option ArcValue)).run s = (answer, s')) :
    ConnectRun agree who r u G s answer s' := by
  rw [run_bind, encodeRelationship, run_ofFun] at hrun
  cases hcode : s.labels.encodeRelationship r.arc.relationship with
  | mk outcome labels =>
    rw [hcode] at hrun
    rcases encodeRelationship_cases hl hcode with ⟨fault, rfl⟩ | ⟨code, rfl, grown, coded⟩
    · cases hrun
      exact .unlabelled (.query fault)
    · exact run_connectAs hs hg hup probed distinct grown coded hcode hrun

theorem run_connectWith (hrun : (connectWith who r u).run s = (answer, s')) :
    ConnectRun agree who r u G s answer s' := by
  rcases run_connectWith_cases hrun with ⟨e, early, rfl, rfl⟩ | ⟨checked, gate, probed, hidle⟩
  · exact .unchanged early
  · by_cases haims : r.terminals.ids = []
    · obtain ⟨rfl, rfl⟩ := hidle haims
      exact .idle probed haims
    · rw [checked.run haims, run_read_bind, run_bind, probed] at hrun
      exact run_connectNamed hs hg hl checked.writable probed checked.distinct hrun

end Running

end Action

end Arcbase
