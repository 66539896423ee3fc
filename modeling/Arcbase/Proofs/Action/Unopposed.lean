import Arcbase.Proofs.Action.Admitting
import Arcbase.Proofs.Action.Plain
import Arcbase.Proofs.Action.Retracting
import Arcbase.Proofs.Action.Unhindered
set_option autoImplicit false

/-!
# Calls that nothing stands in the way of

Nothing stands in the way of a thread if the read-only flag is down and all that is held it
holds itself, for writing and below the limit.  It is then given every vertex that it asks
for, so that no call is hindered (`Concludes`).  While nothing is held that is so for every
thread (`unopposed_nil`).

A call that holds vertices and makes another call meanwhile needs one more level of each.
Only the one that schedules a relationship does so, and a limit of one level refuses it
(`refused_markArcExpiring`).
-/

namespace Arcbase

open Guard

namespace LockTable

variable {t : LockTable} {G : List Guard} {me : Thread}

/-- The flag is down, and all that is held the thread holds itself, for writing and below
the limit. -/
structure Unopposed (t : LockTable) (G : List Guard) (me : Thread) : Prop where
  down : t.readonly = false
  mine : ∀ slot, Open G me slot
  room : ∀ slot, (onSlot slot G).length < t.limit

theorem unopposed_nil (h : t.Accounts []) (hdown : t.readonly = false) : t.Unopposed [] me :=
  ⟨hdown, fun _ _ hm => absurd hm List.not_mem_nil, fun _ => h.limit_pos⟩

theorem Unopposed.acquire_isOk (h : t.Unopposed G me) (ha : t.Accounts G) {mode : LockMode}
    (hmode : mode ≠ .none) (item : LockItem) : ∃ p, t.acquire me item mode = .ok p := by
  cases mode with
  | none => exact absurd rfl hmode
  | readonly =>
    refine (acquire_readonly_iff ha).2 ⟨fun g hg _ => ?_, ?_⟩
    · obtain ⟨hm, hslot⟩ := mem_onSlot.1 hg
      exact (h.mine item.slot g hm hslot).2
    · exact Nat.lt_of_le_of_lt List.countP_le_length (h.room item.slot)
  | writable =>
    refine (acquire_writable_iff ha).2 ⟨h.mine item.slot, h.room item.slot, fun hup => ?_⟩
    rw [h.down] at hup
    cases hup

end LockTable

namespace Store

/-- A store in order, in which nothing stands in the way of a thread. -/
structure Clear (s : Store) (agree : Agreement) (G : List Guard) (me : Thread) : Prop where
  sound : s.Sound agree
  guarded : s.Guarded G
  unopposed : s.locks.Unopposed G me

variable {agree : Agreement} {s s' : Store} {G : List Guard} {me : Thread}

theorem Clear.labels (h : s.Clear agree G me) (labels : Labels) :
    Clear { s with labels } agree G me :=
  ⟨h.sound.withLabels labels, ⟨h.guarded.accounts, h.guarded.item⟩, h.unopposed⟩

theorem Clear.openTo (h : s.Clear agree G me) : s.OpenTo G me := by
  refine fun c _ => ⟨fun g hg _ => ?_, ?_⟩
  · obtain ⟨hm, hslot⟩ := mem_onSlot.1 hg
    exact (h.unopposed.mine c g hm hslot).2
  · exact Nat.lt_of_le_of_lt List.countP_le_length (h.unopposed.room c)

theorem Clear.findOrAdd {who : Caller} {id : String} {manifestation : Manifestation} {c : CellId}
    {isNew : Bool} (h : s.Clear agree G me)
    (hrun : (Action.findOrAdd who id manifestation).run s = (.ok (c, isNew), s')) :
    s'.Clear agree G me := by
  rcases Action.run_findOrAdd hrun with ⟨_, rfl, _⟩ | ⟨_, hnone, _, rfl⟩
  · exact h
  · exact ⟨(Step.add (W := fun _ => True) hnone rfl rfl (Action.bare_new ..)).sound h.sound,
      Action.Guarded.of_addCell h.guarded _, h.unopposed⟩

end Store

namespace Action

open Store

variable {α β : Type} {agree : Agreement} {G : List Guard} {who : Caller} {s s' : Store}

/-- The action is not hindered where nothing stands in the way of its thread. -/
def Concludes (agree : Agreement) (G : List Guard) (who : Caller) (a : Action α) : Prop :=
  ∀ s r s', s.Clear agree G who.thread → a.run s = (r, s') → Concluded r

/-- The action is not hindered, and nothing stands in the way of its thread afterwards. -/
def Clears (agree : Agreement) (G : List Guard) (who : Caller) (a : Action α) : Prop :=
  ∀ s r s', s.Clear agree G who.thread → a.run s = (r, s') →
    Concluded r ∧ ∀ x, r = .ok x → s'.Clear agree G who.thread

/-! ## Sequences -/

theorem Avoids.concluded {a : Action α} (h : Final a) {r : Except Error α}
    (hrun : a.run s = (r, s')) : Concluded r := fun e he => h s e s' (he ▸ hrun)

theorem Avoids.concludes {a : Action α} (h : Final a) : Concludes agree G who a :=
  fun _ _ _ _ hrun => h.concluded hrun

theorem Concludes.outcome {a : Action α} (h : Concludes agree G who a)
    (hs : s.Clear agree G who.thread) : Concluded (a.run s).1 := h s _ _ hs rfl

theorem Clears.concludes {a : Action α} (h : Clears agree G who a) : Concludes agree G who a :=
  fun s r s' hs hrun => (h s r s' hs hrun).1

theorem Clears.bind {a : Action α} {f : α → Action β} (ha : Clears agree G who a)
    (hf : ∀ x, Concludes agree G who (f x)) : Concludes agree G who (a >>= f) := by
  intro s r s' hs hrun
  rw [run_bind] at hrun
  cases hrun₁ : a.run s with
  | mk r₁ s₁ =>
    rw [hrun₁] at hrun
    obtain ⟨hend, hclear⟩ := ha s r₁ s₁ hs hrun₁
    cases r₁ with
    | error e =>
      cases hrun
      exact fun e' he => hend e' (Except.error.inj he ▸ rfl)
    | ok x => exact hf x s₁ r s' (hclear x rfl) hrun

theorem Clears.andThen {a : Action α} {f : α → Action β} (ha : Clears agree G who a)
    (hf : ∀ x, Clears agree G who (f x)) : Clears agree G who (a >>= f) := by
  intro s r s' hs hrun
  rw [run_bind] at hrun
  cases hrun₁ : a.run s with
  | mk r₁ s₁ =>
    rw [hrun₁] at hrun
    obtain ⟨hend, hclear⟩ := ha s r₁ s₁ hs hrun₁
    cases r₁ with
    | error e =>
      cases hrun
      exact ⟨fun e' he => hend e' (Except.error.inj he ▸ rfl), fun _ hx => nomatch hx⟩
    | ok x => exact hf x s₁ r s' (hclear x rfl) hrun

theorem concludes_bind_final {a : Action α} {f : α → Action β} (ha : Concludes agree G who a)
    (hf : ∀ x, Final (f x)) : Concludes agree G who (a >>= f) := by
  intro s r s' hs hrun
  rw [run_bind] at hrun
  cases hrun₁ : a.run s with
  | mk r₁ s₁ =>
    rw [hrun₁] at hrun
    cases r₁ with
    | error e =>
      cases hrun
      exact fun e' he => ha s _ _ hs hrun₁ e' (Except.error.inj he ▸ rfl)
    | ok x => exact (hf x).concluded hrun

theorem Labelling.clears {a : Action α} {Q : α → Prop} (ha : Labelling a Q) (hfinal : Final a) :
    Clears agree G who a := by
  intro s r s' hs hrun
  refine ⟨hfinal.concluded hrun, fun _ _ => ?_⟩
  rw [(ha s r s' hrun).1]
  exact hs.labels _

theorem clears_pure (x : α) : Clears agree G who (pure x) :=
  (labelling_pure (Q := fun _ => True) trivial).clears (avoids_pure x)

theorem clears_read (f : Store → α) : Clears agree G who (read f) :=
  labelling_read.clears (avoids_read f)

theorem clears_refuse (fault : Option VertexFault) : Clears agree G who (refuse fault) :=
  labelling_refuse.clears (final_refuse fault)

theorem clears_find (id : String) : Clears agree G who (find id) :=
  (labelling_find id).clears (final_find id)

theorem clears_checkWritable : Clears agree G who checkWritable := by
  intro s r s' hs hrun
  rw [run_checkWritable, hs.unopposed.down, if_neg Bool.false_ne_true] at hrun
  cases hrun
  exact ⟨concluded_ok, fun _ _ => hs⟩

theorem clears_findOrAdd (id : String) (manifestation : Manifestation) :
    Clears agree G who (findOrAdd who id manifestation) := fun _ _ _ hs hrun =>
  ⟨(final_findOrAdd id manifestation).concluded hrun, fun _ hx => hs.findOrAdd (hx ▸ hrun)⟩

theorem clears_mapM {xs : List α} {f : α → Action β} (h : ∀ x, Clears agree G who (f x)) :
    Clears agree G who (xs.mapM f) := by
  induction xs with
  | nil => exact clears_pure []
  | cons x rest ih =>
    rw [List.mapM_cons]
    exact (h x).andThen fun _ => ih.andThen fun _ => clears_pure _

/-- Something is read off the store, and may be a failure. -/
theorem concludes_readExcept_bind {f : Store → Except Error α} {k : α → Action β}
    (hf : ∀ s, Final (ofExcept (f s))) (hk : ∀ x, Concludes agree G who (k x)) :
    Concludes agree G who (read f >>= fun x => ofExcept x >>= k) := by
  intro s r s' hs hrun
  simp only [run_bind, read, run_ofFun] at hrun
  cases hx : f s with
  | error e =>
    rw [hx] at hrun
    cases hrun
    exact fun e' he => Except.error.inj he ▸ hf s s e s (congrArg (·, s) hx)
  | ok x =>
    rw [hx] at hrun
    exact hk x s r s' hs hrun

/-! ## Holding -/

theorem concludes_acquire_bind {c : CellId} {mode : LockMode} (hmode : mode ≠ .none)
    {k : Guard → Action β} (hk : ∀ g, (mode = .writable → g.hold = .writer) → Final (k g)) :
    Concludes agree G who (acquire who c mode >>= k) := by
  intro s r s' hs hrun
  obtain ⟨⟨g, t⟩, hacq⟩ := hs.unopposed.acquire_isOk hs.guarded.accounts hmode (s.lockItem c)
  simp only [run_bind, acquire, run_ofFun, hacq] at hrun
  refine (hk g fun hwritable => ?_).concluded hrun
  subst hwritable
  exact (LockTable.open_of_acquire hs.guarded.accounts hacq).1

theorem concludes_holding {c : CellId} {mode : LockMode} (hmode : mode ≠ .none)
    {body : Action β} (hbody : Final body) : Concludes agree G who (holding who c mode body) :=
  concludes_acquire_bind hmode fun _ _ => avoids_ensuring hbody _

/-- Vertices are refused together only for being named twice. -/
theorem run_acquireMany_of_clear (hs : s.Clear agree G who.thread) {cells : List CellId}
    {mode : LockMode} (hmode : mode ≠ .none) {r : Except Error (List Guard)}
    (hrun : (acquireMany who cells mode).run s = (r, s')) :
    (∃ new, r = .ok new) ∨ ∃ label, r = .error (.vertex (.duplicateInRequest label)) := by
  simp only [acquireMany, run_ofFun] at hrun
  cases hall : s.locks.acquireMany who.thread (cells.map s.lockItem) mode with
  | mk r₁ t =>
    rw [hall] at hrun
    cases hrun
    refine LockTable.acquireMany_of_isOk hs.guarded.accounts (fun a ha b hb he => ?_)
      (fun item _ => ?_) hall
    · obtain ⟨c, _, rfl⟩ := List.mem_map.1 ha
      obtain ⟨d, _, rfl⟩ := List.mem_map.1 hb
      obtain rfl : c = d := he
      rfl
    · obtain ⟨p, hp⟩ := hs.unopposed.acquire_isOk hs.guarded.accounts hmode item
      rw [hp]
      rfl

theorem concludes_attempt_acquireMany_bind {cells : List CellId} {mode : LockMode}
    (hmode : mode ≠ .none) {k : Except Error (List Guard) → Action β}
    (hok : ∀ new, Final (k (.ok new)))
    (hrefused : ∀ label, Final (k (.error (.vertex (.duplicateInRequest label))))) :
    Concludes agree G who (attempt (acquireMany who cells mode) >>= k) := by
  intro s r s' hs hrun
  cases hacq : (acquireMany who cells mode).run s with
  | mk r₁ s₁ =>
    simp only [run_bind, attempt, run_ofFun, hacq] at hrun
    rcases run_acquireMany_of_clear hs hmode hacq with ⟨new, rfl⟩ | ⟨label, rfl⟩
    · exact (hok new).concluded hrun
    · exact (hrefused label).concluded hrun

theorem concludes_acquireMany_bind {cells : List CellId} {mode : LockMode}
    (hmode : mode ≠ .none) {k : List Guard → Action β} (hk : ∀ new, Final (k new)) :
    Concludes agree G who (acquireMany who cells mode >>= k) := by
  intro s r s' hs hrun
  rw [run_bind] at hrun
  cases hacq : (acquireMany who cells mode).run s with
  | mk r₁ s₁ =>
    rw [hacq] at hrun
    rcases run_acquireMany_of_clear hs hmode hacq with ⟨new, rfl⟩ | ⟨label, rfl⟩
    · exact (hk new).concluded hrun
    · cases hrun
      rintro _ ⟨⟩
      rfl

/-! ## Calls that hold one vertex -/

theorem concludes_find_holding {id : String} {mode : LockMode} (hmode : mode ≠ .none)
    {body : CellId → Action β} (hbody : ∀ c, Final (body c)) :
    Concludes agree G who (find id >>= fun c => holding who c mode (body c)) :=
  (clears_find id).bind fun c => concludes_holding hmode (hbody c)

theorem final_filter (s : Store) (probe : Probe) : Final (ofExcept (s.filterOf probe)) :=
  avoids_ofExcept fun e he => by
    obtain ⟨_, rfl⟩ := fault_of_filterOf he
    rfl

theorem concludes_vertexInfo (id : String) : Concludes agree G who (vertexInfo who id) :=
  concludes_find_holding (by decide) fun _ => avoids_read _

theorem concludes_arcValue (initial : String) (probe : Probe) (terminal : String) :
    Concludes agree G who (arcValue who initial probe terminal) := by
  refine concludes_readExcept_bind (final_filter · probe) fun filter => ?_
  refine concludes_find_holding (by decide) fun c => avoids_bind (avoids_read _) fun found => ?_
  cases found with
  | none => exact avoids_pure none
  | some t => exact avoids_bind (avoids_read _) fun _ => avoids_pure _

theorem concludes_adjacent (anchor : String) (probe : Probe) (neighbor : Option String) :
    Concludes agree G who (adjacent who anchor probe neighbor) := by
  refine concludes_readExcept_bind (final_filter · probe) fun filter => ?_
  refine concludes_find_holding (by decide) fun c => avoids_bind (avoids_read _) fun s => ?_
  cases neighbor with
  | none => exact avoids_pure _
  | some id =>
    dsimp only
    split
    · exact avoids_pure false
    · exact avoids_pure _

theorem concludes_degree (anchor : String) (probe : Option Probe) :
    Concludes agree G who (degree who anchor probe) := by
  refine concludes_find_holding (by decide) fun c => avoids_bind (avoids_read _) fun s => ?_
  cases probe with
  | none => exact avoids_pure _
  | some probe => exact avoids_bind (final_filter s probe) fun _ => avoids_pure _

theorem concludes_acquireExisting_bind {id : String} {mode : LockMode} (hmode : mode ≠ .none)
    {k : Guard → Action β} (hk : ∀ g, (mode = .writable → g.hold = .writer) → Final (k g)) :
    Concludes agree G who (acquireExisting who id mode >>= k) := by
  rw [acquireExisting, bind_assoc]
  exact (clears_find id).bind fun c => concludes_acquire_bind hmode hk

theorem concludes_markExpiring (id : String) (time : UInt32) :
    Concludes agree G who (markExpiring who id time) :=
  clears_checkWritable.bind fun _ => concludes_acquireExisting_bind (by decide) fun _ hg =>
    avoids_ensuring (final_setExpiration (hg rfl) time) _

theorem concludes_create (id : String) (type : Option String) :
    Concludes agree G who (create who id type) := by
  refine clears_checkWritable.bind fun _ => ?_
  refine ((labelling_encodeTypes type).clears (final_encodeTypes type)).bind fun code => ?_
  refine (clears_findOrAdd id .real).bind fun (c, isNew) => concludes_holding (by decide) ?_
  exact final_createHeld type code c id isNew

theorem concludes_openVertex (id : String) (mode : OpenMode) :
    Concludes agree G who (openVertex who id mode) := by
  cases mode with
  | readonly =>
    have hopened : Concludes agree G who (acquireExisting who id .readonly >>= pure) :=
      concludes_acquireExisting_bind (by decide) fun g _ => avoids_pure g
    rwa [bind_pure] at hopened
  | append =>
    exact clears_checkWritable.bind fun _ => concludes_acquireExisting_bind (by decide) fun g _ =>
      avoids_bind (avoids_update _) fun _ => avoids_pure g
  | write =>
    refine clears_checkWritable.bind fun _ => (clears_findOrAdd id .real).bind fun (c, _) => ?_
    exact concludes_acquire_bind (by decide) fun g _ =>
      avoids_bind (avoids_update _) fun _ => avoids_pure g

/-! ## Calls that hold several vertices -/

theorem concludes_openAll (ids : List String) (mode : OpenMode) {lockMode : LockMode}
    (hmode : lockMode ≠ .none) : Concludes agree G who (openAll who ids mode lockMode) := by
  refine Clears.bind (clears_mapM fun id => ?_) fun cells => ?_
  · cases mode with
    | write => exact (clears_findOrAdd id .real).andThen fun _ => clears_pure _
    | readonly => exact clears_find id
    | append => exact clears_find id
  · exact concludes_acquireMany_bind hmode fun guards => final_promoteAll cells lockMode guards

theorem concludes_openVertices (ids : List String) (mode : OpenMode) :
    Concludes agree G who (openVertices who ids mode) := by
  unfold openVertices
  cases repeated? [] ids with
  | some id => exact (avoids_fail rfl).concludes
  | none =>
    cases mode with
    | readonly => exact concludes_openAll ids .readonly (by decide)
    | append => exact clears_checkWritable.bind fun _ => concludes_openAll ids .append (by decide)
    | write => exact clears_checkWritable.bind fun _ => concludes_openAll ids .write (by decide)

theorem clears_terminalCells (initial : String) (i : CellId) (terminals : Terminals) :
    Clears agree G who (terminalCells who initial i terminals) := by
  cases terminals with
  | one t =>
    simp only [terminalCells]
    split
    · exact clears_pure _
    · exact (clears_findOrAdd t .virtual).andThen fun _ => clears_pure _
  | list ids =>
    refine Clears.andThen (clears_mapM fun t => (clears_read _).andThen fun found => ?_) fun _ =>
      clears_pure _
    cases found with
    | none => exact (labelling_fail (Q := fun _ => True)).clears (avoids_fail rfl)
    | some c => exact clears_pure c

/-- Taking out again what was added never fails. -/
theorem final_collectUnheld (cells : List CellId) : Final (collectUnheld who cells) := by
  refine avoids_forM fun c => avoids_bind (avoids_ofFun fun s => ⟨_, rfl⟩) fun outcome => ?_
  cases outcome with
  | ok g => exact avoids_update _
  | error e => exact avoids_pure ()

theorem concludes_connectAs (r : ConnectRequest) (relationship : LabelCode) (u : ArcUpdate)
    (gate : Option Gate) : Concludes agree G who (connectAs who r relationship u gate) := by
  refine (clears_findOrAdd r.initial .real).bind fun (i, _) => ?_
  refine (clears_terminalCells r.initial i r.terminals).bind fun (terminals, added) => ?_
  refine concludes_attempt_acquireMany_bind (by decide) (fun guards => ?_) fun label => ?_
  · exact avoids_ensuring (final_connectHeld r relationship u gate i terminals) _
  · exact avoids_bind (final_collectUnheld added) fun _ => avoids_fail rfl

theorem concludes_connectWith (r : ConnectRequest) (u : ArcUpdate) :
    Concludes agree G who (connectWith who r u) := by
  refine clears_checkWritable.bind fun _ => (clears_read _).bind fun fault => ?_
  refine (clears_refuse fault).bind fun _ => ?_
  split
  · exact (avoids_fail rfl).concludes
  · refine concludes_readExcept_bind (fun s => avoids_ofExcept fun e he => ?_) fun gate => ?_
    · obtain ⟨_, rfl⟩ := mapM_gateOf_error he
      rfl
    · refine ((labelling_terminalIds r).clears (final_terminalIds r)).bind fun ids => ?_
      split
      · exact (avoids_pure _).concludes
      · refine (clears_read _).bind fun fault => (clears_refuse fault).bind fun _ => ?_
        exact (labelling_encodeRelationship.clears (final_encodeRelationship _)).bind
          fun relationship => concludes_connectAs r relationship u gate

theorem concludes_connect (r : ConnectRequest) : Concludes agree G who (connect who r) :=
  (labelling_ofExcept.clears (final_ofRequest r.arc)).bind fun u =>
    concludes_bind_final (concludes_connectWith r u) fun _ => avoids_pure _

theorem concludes_addTo (initial relationship terminal : String) (kind : ArcKind)
    (delta : Binary64) :
    Concludes agree G who (addTo who initial relationship terminal kind delta) := by
  unfold addTo
  dsimp only
  split
  on_goal 1 =>
    refine ((labelling_fail (Q := fun _ => True)).clears (avoids_fail rfl)).bind fun _ => ?_
  all_goals
    refine concludes_bind_final (concludes_connectWith _ _) fun written => ?_
    split
    · exact avoids_pure _
    · exact avoids_fail rfl

theorem concludes_count (initial relationship terminal : String) (delta : Option Int) :
    Concludes agree G who (count who initial relationship terminal delta) :=
  concludes_bind_final (concludes_addTo _ _ _ _ _) fun _ => avoids_pure _

theorem concludes_accumulate (initial relationship terminal : String)
    (delta : Option Binary64) :
    Concludes agree G who (accumulate who initial relationship terminal delta) :=
  concludes_bind_final (concludes_addTo _ _ _ _ _) fun _ => avoids_pure _

/-! ## Calls about the whole graph -/

theorem final_stageVertex (g : Staging) (v : VertexSnapshot) : Final (stageVertex g v) := by
  refine avoids_bind (avoids_read _) fun fault => avoids_bind (final_refuse fault) fun _ => ?_
  dsimp only
  split
  · exact avoids_fail rfl
  · exact avoids_bind (final_encodeTypes v.type) fun _ => avoids_pure _

theorem final_stageArc (g : Staging) (a : ArcSnapshot) : Final (stageArc g a) := by
  unfold stageArc
  cases hfault : g.arcFault? a with
  | some e =>
    refine avoids_fail ?_
    simp only [Staging.arcFault?] at hfault
    repeat' split at hfault
    all_goals cases hfault
    all_goals rfl
  | none => exact avoids_bind (final_encodeRelationship _) fun _ => avoids_pure _

theorem concludes_restore (snapshot : Snapshot) : Concludes agree G who (restore snapshot) := by
  refine clears_checkWritable.bind fun _ => Avoids.concludes ?_
  refine avoids_bind (avoids_foldlM final_stageVertex _) fun g => ?_
  refine avoids_bind (avoids_foldlM final_stageArc g) fun g => ?_
  refine avoids_bind (avoids_read _) fun order => ?_
  split
  · exact avoids_bind (avoids_read _) fun _ => avoids_bind (avoids_fail rfl) fun _ =>
      avoids_update _
  · exact avoids_update _

theorem concludes_snapshot : Concludes agree G who (snapshot who) := by
  intro s r s' hs hrun
  obtain ⟨r₁, t, hrun₁, _, _, rfl⟩ :=
    answers_toSnapshot hs.openTo hs.sound.placed s.locks (.refl _) hs.guarded.accounts
  rw [show { s with locks := s.locks } = s from rfl, hrun] at hrun₁
  cases hrun₁
  exact concluded_ok

/-- A pass is carried out whole. -/
theorem requeued_runExpiration {time : UInt32} {r : Except Error ExpirationReport}
    (hs : s.Clear agree [] who.thread) (hrun : (runExpiration who time).run s = (r, s')) :
    ∃ report, r = .ok report ∧ report.requeued = 0 := by
  rcases run_runExpiration hrun with ⟨hup, _⟩ | ⟨hdown, report, again, s₁, rfl, hagain, run, _⟩
  · rw [hs.unopposed.down] at hup
    cases hup
  · obtain ⟨hs₀, hg₀⟩ := sound_popped hs.sound hs.guarded time
    obtain ⟨rfl, _⟩ := run.unhindered hs₀ hg₀ hdown
    exact ⟨report, rfl, hagain⟩

theorem concludes_delete (id : String) : Concludes agree [] who (delete who id) :=
  fun _ _ _ hs hrun => ((run_delete hs.sound hs.guarded hrun).unhindered hs.sound hs.guarded
    hs.unopposed.down).1

theorem concludes_disconnect (anchor : String) (probe : Probe) (neighbor : Option String) :
    Concludes agree [] who (disconnect who anchor probe neighbor) :=
  fun _ _ _ hs hrun => ((run_disconnect hs.sound hs.guarded hrun).unhindered hs.sound hs.guarded
    hs.unopposed.down).1

end Action

/-! ## A call within a call -/

namespace Store

variable {agree : Agreement} {s : Store} {initial relationship terminal : String}

/-- Some arc of a relationship leads from one vertex to another. -/
structure Related (s : Store) (initial relationship terminal : String) : Prop where
  present : s.contains initial = true ∧ s.contains terminal = true
  arc : ∃ p ∈ s.arcs, p.initial = .of initial ∧ p.terminal = .of terminal ∧
    s.labels.relationships.lookup? relationship = some p.arc.relationship

theorem hasOutArc_along_iff (hs : s.Sound agree) {i t : CellId} (hi : s.lookup initial = some i)
    (ht : s.lookup terminal = some t) {filter : ArcFilter}
    (hfilter : s.filterOf (.along relationship .out) = .ok filter)
    (hproper : relationship ≠ Probe.wildcard) :
    s.hasOutArc i t filter = true ↔ s.Related initial relationship terminal := by
  rw [hasOutArc_eq hs (hs.placed.of_lookup hi).1, hs.placed.keyOf_of_lookup hi,
    hs.placed.keyOf_of_lookup ht, List.any_eq_true]
  simp only [Bool.and_eq_true, beq_iff_eq]
  constructor
  · rintro ⟨p, hp, ⟨hinitial, hterminal⟩, htest⟩
    refine ⟨⟨?_, ?_⟩, p, hp, hinitial, hterminal, ?_⟩
    · rw [Store.contains, hi, Option.isSome_some]
    · rw [Store.contains, ht, Option.isSome_some]
    · exact (names_of_filterOf hfilter htest).resolve_left hproper
  · rintro ⟨_, p, hp, hinitial, hterminal, hcode⟩
    exact ⟨p, hp, ⟨hinitial, hterminal⟩, test_of_names hfilter (.inr hcode)⟩

end Store

namespace Action

open Store

variable {agree : Agreement} {G new : List Guard} {who : Caller} {s : Store} {cells : List CellId}
  {i t : CellId} {initial relationship terminal : String} {time : UInt32}

/-- The connect that writes the time of a relationship. -/
def marking (initial relationship terminal : String) (time : UInt32) : ConnectRequest :=
  { initial, arc := { relationship, kind := .timeExpires, value := some (.ofNat time.toNat) }
    terminals := .one terminal }

/-- The guards that are given for cells are one on each. -/
theorem GivenAll.length_onSlot {W : CellId → Prop} {mode : LockMode}
    (h : GivenAll W who mode cells new) (c : CellId) :
    (onSlot c new).length = if c ∈ cells then 1 else 0 := by
  have hcount : (onSlot c new).length = (new.map fun g => g.item.slot).count c := by
    rw [List.count, List.countP_map, List.countP_eq_length_filter]
    rfl
  rw [hcount, ← h.slots.count_eq c, h.distinct.count]

/-- Besides vertices that it holds once a thread is given every other level. -/
theorem unopposed_given {W : CellId → Prop} {locks : LockTable}
    (h : GivenAll W who .writable cells new) (hdown : locks.readonly = false)
    (hlimit : 1 < locks.limit) : locks.Unopposed new who.thread := by
  refine ⟨hdown, fun c g hm hslot => ?_, fun c => ?_⟩
  · have hgiven := h.each g hm
    exact ⟨hgiven.writing rfl, hgiven.thread⟩
  · rw [h.length_onSlot]
    split
    · exact hlimit
    · exact Nat.lt_trans Nat.zero_lt_one hlimit

/-- Different vertices are held together, and what is done meanwhile decides. -/
theorem run_holdingMany_of_clear {β : Type} (hs : s.Clear agree [] who.thread)
    (hnodup : cells.Nodup) (hlive : AllLive cells s) (body : Action β) :
    ∃ new locks, GivenAll (fun _ => True) who .writable cells new ∧
      Guarded { s with locks } new ∧ s.locks.SameSettings locks ∧
      ((holdingMany who cells .writable body).run s).1 = (body.run { s with locks }).1 := by
  have hok : ∀ c ∈ cells,
      (s.locks.acquire who.thread (s.lockItem c) .writable).isOk = true := fun c _ => by
    have hgiven : ∃ p, s.locks.acquire who.thread (s.lockItem c) .writable = .ok p :=
      hs.unopposed.acquire_isOk hs.guarded.accounts (by decide) _
    obtain ⟨p, hp⟩ := hgiven
    rw [hp]
    rfl
  obtain ⟨new, locks, hrun⟩ := run_acquireMany_of_isOk hs.sound hs.guarded hnodup hlive hok
  have hturns : Turns agree (fun _ => True) [] (AllLive cells) (acquireMany who cells .writable)
      (fun new => new ++ []) [] fun new s =>
        GivenAll (fun _ => True) who .writable cells new ∧ AllLive cells s :=
    turns_acquireMany (fun _ _ => trivial) (fun s hl c hc => (hl c hc).1)
      (frameStable_allLive cells)
  obtain ⟨_, hg, hgiven, _⟩ := hturns s _ _ hs.sound hs.guarded hlive hrun
  have hlocks : (s.locks.acquireMany who.thread (cells.map s.lockItem) .writable).2 = locks := by
    simp only [acquireMany, run_ofFun] at hrun
    exact congrArg Store.locks (Prod.mk.inj hrun).2
  refine ⟨new, locks, hgiven, (List.append_nil new) ▸ hg,
    hlocks ▸ LockTable.sameSettings_acquireMany .., ?_⟩
  simp only [holdingMany, run_bind, hrun, ensuring, run_ofFun]

/-- A connect in place of an arc that is there. -/
def reconnect (who : Caller) (r : ConnectRequest) (missing : Error) (filter : ArcFilter)
    (i t : CellId) : Action Unit := do
  if ← read (·.hasOutArc i t filter) then
    let _ ← connect who r
  else fail missing

theorem run_reconnect (r : ConnectRequest) (missing : Error) (filter : ArcFilter) :
    ((reconnect who r missing filter i t).run s).1 =
      if s.hasOutArc i t filter = true then ((connect who r).run s).1.map fun _ => ()
      else .error missing := by
  simp only [reconnect, run_bind, read, run_ofFun]
  split
  · rw [run_bind]
    cases hrun : (connect who r).run s with
    | mk r s' => cases r <;> rfl
  · rfl

/-- What scheduling a relationship comes to once its ends and its probe are found. -/
theorem run_markArcExpiring_of_clear (time : UInt32) (hs : s.Clear agree [] who.thread)
    {filter : ArcFilter} (hfilter : s.filterOf (.along relationship .out) = .ok filter)
    (hi : s.lookup initial = some i) (ht : s.lookup terminal = some t) :
    ∃ new locks, GivenAll (fun _ => True) who .writable (if i = t then [i] else [i, t]) new ∧
      Guarded { s with locks } new ∧ s.locks.SameSettings locks ∧
      ((markArcExpiring who initial relationship terminal time).run s).1 =
        if s.hasOutArc i t filter = true then
          ((connect who (marking initial relationship terminal time)).run
            { s with locks }).1.map fun _ => ()
        else .error (.key (.noArc relationship initial terminal)) := by
  have hlivei := (hs.sound.placed.of_lookup hi).1
  have hlivet := (hs.sound.placed.of_lookup ht).1
  have hnodup : (if i = t then [i] else [i, t]).Nodup := by
    split
    next => exact List.nodup_singleton i
    next hne => simp [hne]
  have hlive : AllLive (if i = t then [i] else [i, t]) s := by
    split
    · exact allLive_cons.2 ⟨hlivei, allLive_nil⟩
    · exact allLive_cons.2 ⟨hlivei, allLive_cons.2 ⟨hlivet, allLive_nil⟩⟩
  obtain ⟨new, locks, hgiven, hg, hsettings, hrun⟩ := run_holdingMany_of_clear hs hnodup hlive
    (reconnect who (marking initial relationship terminal time)
      (.key (.noArc relationship initial terminal)) filter i t)
  refine ⟨new, locks, hgiven, hg, hsettings, ?_⟩
  have hmark : (markArcExpiring who initial relationship terminal time).run s =
      (holdingMany who (if i = t then [i] else [i, t]) .writable
        (reconnect who (marking initial relationship terminal time)
          (.key (.noArc relationship initial terminal)) filter i t)).run s := by
    simp only [markArcExpiring, run_bind, run_checkWritable, hs.unopposed.down, Bool.false_eq_true,
      if_false, read, run_ofFun, ofExcept, hfilter, hi, ht, reconnect, marking]
  have harc : Store.hasOutArc { s with locks } i t filter = s.hasOutArc i t filter := rfl
  rw [hmark, hrun, run_reconnect, harc]

theorem ofRequest_of_coerce {r : ArcRequest} {raw : Binary64} {v : ArcValue}
    (hvalue : r.value = some raw) (hcoerce : r.kind.coerce raw = .ok v)
    (hset : r.kind.isAccumulating = false) : ArcUpdate.ofRequest r = .ok (.set (some v)) := by
  simp [ArcUpdate.ofRequest, hvalue, hcoerce, hset, Except.mapError, bind, Except.bind, pure,
    Except.pure]

/-- Every time can be written. -/
theorem ofRequest_marking (initial relationship terminal : String) (time : UInt32) :
    ∃ u, ArcUpdate.ofRequest (marking initial relationship terminal time).arc = .ok u :=
  ⟨_, ofRequest_of_coerce rfl (ArcKind.coerce_timeExpires time) rfl⟩

/-- A connect without a proper relationship holds nothing. -/
theorem concluded_connect_of_improper {r : ConnectRequest} (hdown : s.locks.readonly = false)
    (himproper : r.arc.relationship = "" ∨ r.arc.relationship = Probe.wildcard) :
    Concluded ((connect who r).run s).1 := by
  cases hu : ArcUpdate.ofRequest r.arc with
  | error e =>
    obtain ⟨fault, rfl⟩ := ofRequest_error hu
    simp only [connect, run_bind, ofExcept, run_ofFun, hu]
    rintro _ ⟨⟩
    rfl
  | ok u =>
    simp only [connect, connectWith, run_bind, ofExcept, run_ofFun, hu, run_checkWritable, hdown,
      Bool.false_eq_true, if_false, read, if_pos himproper]
    cases s.identifierFault? r.initial with
    | none =>
      simp only [refuse, run_pure, fail, ofExcept, run_ofFun]
      rintro _ ⟨⟩
      rfl
    | some fault =>
      simp only [refuse, fail, ofExcept, run_ofFun]
      rintro _ ⟨⟩
      rfl

/-- A level besides those that are held is enough for the connect. -/
theorem concluded_markArcExpiring (hs : s.Clear agree [] who.thread)
    (hroom : s.locks.limit = 1 → ¬ (relationship = "" ∨ relationship = Probe.wildcard) →
      ¬ s.Related initial relationship terminal) :
    Concluded ((markArcExpiring who initial relationship terminal time).run s).1 := by
  cases hfilter : s.filterOf (.along relationship .out) with
  | error e =>
    obtain ⟨fault, rfl⟩ := fault_of_filterOf hfilter
    simp only [markArcExpiring, run_bind, run_checkWritable, hs.unopposed.down, Bool.false_eq_true,
      if_false, read, run_ofFun, ofExcept, hfilter]
    rintro _ ⟨⟩
    rfl
  | ok filter =>
    have hmissing : Concluded
        (.error (.key (.noArc relationship initial terminal)) : Except Error Unit) := by
      rintro _ ⟨⟩
      rfl
    cases hi : s.lookup initial with
    | none =>
      simp only [markArcExpiring, run_bind, run_checkWritable, hs.unopposed.down,
        Bool.false_eq_true, if_false, read, run_ofFun, ofExcept, hfilter, hi]
      exact hmissing
    | some i =>
      cases ht : s.lookup terminal with
      | none =>
        simp only [markArcExpiring, run_bind, run_checkWritable, hs.unopposed.down,
          Bool.false_eq_true, if_false, read, run_ofFun, ofExcept, hfilter, hi, ht]
        exact hmissing
      | some t =>
        obtain ⟨new, locks, hgiven, hg, hsettings, hrun⟩ :=
          run_markArcExpiring_of_clear time hs hfilter hi ht
        rw [hrun]
        split
        next harc =>
          refine Concluded.map ?_ _
          have hclear : Store.Sound agree { s with locks } := hs.sound.withLocks locks
          have hdown : locks.readonly = false := hsettings.readonly.trans hs.unopposed.down
          by_cases hproper : relationship = "" ∨ relationship = Probe.wildcard
          · exact concluded_connect_of_improper hdown hproper
          · have hrelated := (hasOutArc_along_iff hs.sound hi ht hfilter fun e =>
              hproper (.inr e)).1 harc
            have hlimit : 1 < locks.limit := by
              have hpos := hs.guarded.accounts.limit_pos
              have hne : s.locks.limit ≠ 1 := fun e => hroom e hproper hrelated
              rw [hsettings.limit]
              omega
            exact (concludes_connect _).outcome
              ⟨hclear, hg, unopposed_given hgiven hdown hlimit⟩
        next => exact hmissing

theorem run_findOrAdd_of_lookup {id : String} {c : CellId} (hnamed : s.identifierFault? id = none)
    (hfound : s.lookup id = some c) (manifestation : Manifestation) :
    (findOrAdd who id manifestation).run s = (.ok (c, false), s) := by
  obtain ⟨hkey, hid⟩ := Option.filter_eq_some_iff.1 hfound
  have hid : (s.cell c).id = id := by simpa using hid
  simp only [findOrAdd, run_bind, read, run_ofFun, hnamed, refuse, run_pure, hkey, hid, if_true]

theorem run_terminalCells_of_lookup (hi : s.lookup initial = some i)
    (hnamed : s.identifierFault? terminal = none) (ht : s.lookup terminal = some t) :
    (terminalCells who initial i (.one terminal)).run s = (.ok ([t], []), s) := by
  by_cases he : terminal = initial
  · subst he
    obtain rfl : i = t := Option.some.inj (hi.symm.trans ht)
    simp only [terminalCells, if_true, run_pure]
  · simp only [terminalCells, if_neg he, run_bind, run_findOrAdd_of_lookup hnamed ht, run_pure,
      Bool.false_eq_true, if_false]

/-- At the limit for the initial a connect to a vertex that is there is refused. -/
theorem refused_connectAs {r : ConnectRequest} (hs : s.Sound agree) (hg : s.Guarded G)
    (hinitial : s.identifierFault? r.initial = none)
    (hterminal : s.identifierFault? terminal = none) (hone : r.terminals = .one terminal)
    (hi : s.lookup r.initial = some i) (ht : s.lookup terminal = some t)
    (hfull : s.locks.limit ≤ (onSlot i G).length) (code : LabelCode) (u : ArcUpdate)
    (gate : Option Gate) :
    ∃ cause, ((connectAs who r code u gate).run s).1 = .error (.access cause) := by
  have hlive : AllLive (i :: [t].filter (· ≠ i)) s := by
    refine allLive_cons.2 ⟨(hs.placed.of_lookup hi).1, fun c hc => ?_⟩
    obtain rfl := List.mem_singleton.1 (List.mem_filter.1 hc).1
    exact (hs.placed.of_lookup ht).1
  have hordinals : (((i :: [t].filter (· ≠ i)).map s.lockItem).map LockItem.ordinal).Nodup := by
    rw [List.map_map]
    refine List.Nodup.map_on (fun c hc c' hc' he =>
      hs.placed.eq_of_key (hlive c hc) (hlive c' hc') (congrArg VertexKey.mk he)) ?_
    by_cases he : t = i
    · simp [he]
    · simp [he, Ne.symm he]
  have hall : ∃ cause locks, s.locks.acquireMany who.thread
      ((i :: [t].filter (· ≠ i)).map s.lockItem) .writable = (.error (.access cause), locks) :=
    LockTable.acquireMany_of_full hg.accounts hordinals
      (List.mem_map_of_mem List.mem_cons_self) hfull
  obtain ⟨cause, locks, hrefused⟩ := hall
  refine ⟨cause, ?_⟩
  simp only [connectAs, run_bind, run_findOrAdd_of_lookup hinitial hi, hone,
    run_terminalCells_of_lookup hi hterminal ht, attempt, acquireMany, run_ofFun, hrefused,
    collectUnheld, List.forM, run_pure, fail, ofExcept]

theorem refused_connect {r : ConnectRequest} (hs : s.Sound agree) (hg : s.Guarded G)
    (hdown : s.locks.readonly = false) {u : ArcUpdate} (hu : ArcUpdate.ofRequest r.arc = .ok u)
    (hplain : r.condition = none)
    (hproper : ¬ (r.arc.relationship = "" ∨ r.arc.relationship = Probe.wildcard))
    {code : LabelCode} (hcode : s.labels.relationships.lookup? r.arc.relationship = some code)
    (hinitial : s.identifierFault? r.initial = none)
    (hterminal : s.identifierFault? terminal = none) (hone : r.terminals = .one terminal)
    (hi : s.lookup r.initial = some i) (ht : s.lookup terminal = some t)
    (hfull : s.locks.limit ≤ (onSlot i G).length) :
    ∃ cause, ((connect who r).run s).1 = .error (.access cause) := by
  have hheld : ∃ cause, ((connectAs who r code u none).run s).1 = .error (.access cause) :=
    refused_connectAs hs hg hinitial hterminal hone hi ht hfull code u none
  obtain ⟨cause, hrefused⟩ := hheld
  refine ⟨cause, ?_⟩
  have hgate : r.condition.mapM s.gateOf = .ok none := by
    rw [hplain]
    rfl
  have hencoded : s.labels.encodeRelationship r.arc.relationship = (.ok code, s.labels) :=
    Labels.encodeRelationship_of_lookup hcode
  have hwith : (connectWith who r u).run s = (connectAs who r code u none).run s := by
    have hchecked : Checked r s := checked_one hdown ⟨hinitial, hterminal⟩ hproper hone
    have haims : r.terminals.ids ≠ [] := by simp [hone, Terminals.ids]
    rw [hchecked.run_connectAs haims hgate (congrArg Prod.fst hencoded), hencoded]
  simp only [connect, run_bind, ofExcept, run_ofFun, hu, hwith]
  cases has : (connectAs who r code u none).run s with
  | mk x s' =>
    rw [has] at hrefused
    cases x with
    | error e =>
      obtain rfl : e = .access cause := Except.error.inj hrefused
      rfl
    | ok n => cases hrefused

/-- The limit of one level refuses to schedule a relationship that is there. -/
theorem refused_markArcExpiring (hs : s.Clear agree [] who.thread) (hlawful : s.Lawful)
    (hlimit : s.locks.limit = 1)
    (hproper : ¬ (relationship = "" ∨ relationship = Probe.wildcard))
    (hrelated : s.Related initial relationship terminal) :
    ∃ cause, ((markArcExpiring who initial relationship terminal time).run s).1 =
      .error (.access cause) := by
  obtain ⟨⟨hinitial, hterminal⟩, p, _, _, _, hcode⟩ := id hrelated
  obtain ⟨i, hi⟩ := Option.isSome_iff_exists.1 hinitial
  obtain ⟨t, ht⟩ := Option.isSome_iff_exists.1 hterminal
  have hnamed : ∀ {id : String} {c : CellId}, s.lookup id = some c →
      s.identifierFault? id = none := fun hc => by
    obtain ⟨hlive, rfl⟩ := hs.sound.placed.of_lookup hc
    exact hlawful.wellNamed _ hlive.1
  cases hfilter : s.filterOf (.along relationship .out) with
  | error e => exact absurd (.inl (fault_of_along hfilter)) hproper
  | ok filter =>
    obtain ⟨new, locks, hgiven, hg, hsettings, hrun⟩ :=
      run_markArcExpiring_of_clear time hs hfilter hi ht
    obtain ⟨u, hu⟩ := ofRequest_marking initial relationship terminal time
    have hheld : i ∈ if i = t then [i] else [i, t] := by
      split <;> exact List.mem_cons_self
    have hfull : locks.limit ≤ (onSlot i new).length := by
      rw [hgiven.length_onSlot, if_pos hheld, hsettings.limit, hlimit]
    have hsound : Store.Sound agree { s with locks } := hs.sound.withLocks locks
    have hconnect : ∃ cause, ((connect who (marking initial relationship terminal time)).run
        { s with locks }).1 = .error (.access cause) :=
      refused_connect hsound hg (hsettings.readonly.trans hs.unopposed.down) hu rfl hproper hcode
        (hnamed hi) (hnamed ht) rfl hi ht hfull
    obtain ⟨cause, hrefused⟩ := hconnect
    refine ⟨cause, ?_⟩
    rw [hrun, if_pos ((hasOutArc_along_iff hs.sound hi ht hfilter fun e =>
      hproper (.inr e)).2 hrelated), hrefused]
    rfl

end Action

end Arcbase
