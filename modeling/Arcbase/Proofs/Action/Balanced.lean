import Arcbase.Proofs.Action.Expiring
import Arcbase.Proofs.Lock.Balance
import Arcbase.Proofs.Snapshot.Committing
import Arcbase.Query.Result
import Arcbase.Store.Reading
set_option autoImplicit false

/-!
# Actions that give back all that they take

An action *balances* guards against others if giving back the ones after it leads to the
same locks as giving back the ones before it, whether it succeeds or fails.  It is
*balanced* if it has no guards of its own before it nor after it: then it leaves every lock
record, and the number of written items, as it found them.

A balanced action may run while guards are held (`Balanced.frame`), so balance follows the
nesting of an action, to any depth and along every path on which it ends.
-/

namespace Arcbase

/-! ## Locks -/

namespace LockTable

/-- The table `t'` with the guards `H'` comes to the same as `t` with `H`; the guards `G` are
held besides. -/
structure Balance (G : List Guard) (t : LockTable) (H : List Guard) (t' : LockTable)
    (H' : List Guard) : Prop where
  accounts : t'.Accounts (H' ++ G)
  tallied : t'.Tallied
  returned : (t.releaseAll H).Matches (t'.releaseAll H')

variable {G H H' H'' : List Guard} {t t' t'' : LockTable} {g : Guard}

theorem Balance.refl (hacc : t.Accounts (H ++ G)) (ht : t.Tallied) : Balance G t H t H :=
  ⟨hacc, ht, .refl _⟩

theorem Balance.trans (h : Balance G t H t' H') (h' : Balance G t' H' t'' H'') :
    Balance G t H t'' H'' :=
  ⟨h'.accounts, h'.tallied, h.returned.trans h'.returned⟩

theorem balance_acquire {me : Thread} {item : LockItem} {mode : LockMode} (hacc : t.Accounts G)
    (ht : t.Tallied) (ha : t.acquire me item mode = .ok (g, t')) : Balance G t [] t' [g] :=
  ⟨accounts_acquire hacc ha, tallied_acquire ht ha, release_acquire hacc ha⟩

theorem balance_releaseAll (hacc : t.Accounts (H ++ G)) (ht : t.Tallied) :
    Balance G t H (t.releaseAll H) [] :=
  ⟨accounts_releaseAll hacc, tallied_releaseAll ht hacc, .refl _⟩

end LockTable

namespace Store

theorem locks_dropAll (s : Store) (guards : List Guard) :
    (s.dropAll guards).locks = s.locks.releaseAll guards := by
  induction guards generalizing s with
  | nil => rfl
  | cons g rest ih => exact (ih (s.drop g)).trans (by rw [locks_drop]; rfl)

end Store

namespace Action

open Store LockTable

variable {α β : Type} {a : Action α} {G H H' L : List Guard} {K : α → List Guard}
  {who : Caller}

/-- The guards that an outcome leaves. -/
def left (K : α → List Guard) (L : List Guard) : Except Error α → List Guard
  | .ok x => K x
  | .error _ => L

theorem left_const (r : Except Error α) : left (fun _ => H) H r = H := by
  cases r <;> rfl

/-- The guards `H` become `K x` with the answer `x`, and `L` with a failure. -/
def Balances (H : List Guard) (a : Action α) (K : α → List Guard) (L : List Guard) : Prop :=
  ∀ G s r s', s.locks.Accounts (H ++ G) → s.locks.Tallied → a.run s = (r, s') →
    Balance G s.locks H s'.locks (left K L r)

/-- The action gives back all that it takes. -/
abbrev Balanced (a : Action α) : Prop := Balances [] a (fun _ => []) []

/-! ## Rules -/

theorem Balances.bind {f : α → Action β} {K' : β → List Guard} (ha : Balances H a K L)
    (hf : ∀ x, Balances (K x) (f x) K' L) : Balances H (a >>= f) K' L := by
  intro G s r s' hacc ht hrun
  rw [run_bind] at hrun
  cases hrun₁ : a.run s with
  | mk r₁ s₁ =>
    rw [hrun₁] at hrun
    have h₁ := ha G s r₁ s₁ hacc ht hrun₁
    cases r₁ with
    | error e =>
      cases hrun
      exact h₁
    | ok x => exact h₁.trans (hf x G s₁ r s' h₁.accounts h₁.tallied hrun)

/-- Guards that are held meanwhile are held afterwards. -/
theorem Balances.frame (h : Balanced a) (H : List Guard) : Balances H a (fun _ => H) H := by
  intro G s r s' hacc ht hrun
  have hbalance := h (H ++ G) s r s' hacc ht hrun
  rw [left_const] at hbalance ⊢
  exact ⟨hbalance.accounts, hbalance.tallied, hbalance.returned.releaseAll H⟩

theorem balanced_of_locks (h : ∀ s, (a.run s).2.locks = s.locks) : Balanced a := by
  intro G s r s' hacc ht hrun
  have hlocks : s'.locks = s.locks := by
    rw [← h s, hrun]
  rw [left_const, hlocks]
  exact .refl hacc ht

theorem balanced_pure (x : α) : Balanced (pure x) := balanced_of_locks fun _ => rfl

theorem balanced_read (f : Store → α) : Balanced (read f) := balanced_of_locks fun _ => rfl

theorem balanced_ofExcept (x : Except Error α) : Balanced (ofExcept x) :=
  balanced_of_locks fun _ => rfl

theorem balanced_fail (e : Error) : Balanced (fail e : Action α) := balanced_of_locks fun _ => rfl

theorem balanced_update {f : Store → Store} (h : ∀ s, (f s).locks = s.locks) :
    Balanced (update f) := balanced_of_locks h

theorem balanced_modifyData (c : CellId) (f : VertexData → VertexData) :
    Balanced (update (·.modifyData c f)) := balanced_update fun _ => rfl

theorem balanced_refuse (fault : Option VertexFault) : Balanced (refuse fault) := by
  cases fault with
  | none => exact balanced_pure ()
  | some f => exact balanced_fail _

theorem balanced_checkWritable : Balanced checkWritable := balanced_of_locks fun _ => rfl

theorem balanced_find (id : String) : Balanced (find id) := by
  refine .bind (balanced_read _) fun found => ?_
  cases found with
  | none => exact balanced_fail _
  | some c => exact balanced_pure c

/-! ### Loops -/

theorem balanced_mapM {f : α → Action β} (h : ∀ x, Balanced (f x)) (xs : List α) :
    Balanced (xs.mapM f) := by
  induction xs with
  | nil => exact balanced_pure []
  | cons x rest ih =>
    rw [List.mapM_cons]
    exact .bind (h x) fun y => .bind ih fun ys => balanced_pure (y :: ys)

theorem balanced_foldlM {f : β → α → Action β} (h : ∀ y x, Balanced (f y x)) (xs : List α)
    (y : β) : Balanced (xs.foldlM f y) := by
  induction xs generalizing y with
  | nil => exact balanced_pure y
  | cons x rest ih =>
    rw [List.foldlM_cons]
    exact .bind (h y x) ih

theorem balanced_forM {f : α → Action Unit} (h : ∀ x, Balanced (f x)) (xs : List α) :
    Balanced (xs.forM f) := by
  induction xs with
  | nil => exact balanced_pure ()
  | cons x rest ih => exact .bind (h x) fun _ => ih

/-! ### Guards -/

theorem balances_acquire (c : CellId) (mode : LockMode) :
    Balances [] (acquire who c mode) (fun g => [g]) [] := by
  intro G s r s' hacc ht hrun
  simp only [acquire, run_ofFun] at hrun
  cases ha : s.locks.acquire who.thread (s.lockItem c) mode with
  | error e =>
    rw [ha] at hrun
    cases hrun
    exact .refl hacc ht
  | ok p =>
    rw [ha] at hrun
    cases hrun
    exact balance_acquire hacc ht ha

theorem balances_acquireMany (cells : List CellId) (mode : LockMode) :
    Balances [] (acquireMany who cells mode) (fun new => new) [] := by
  intro G s r s' hacc ht hrun
  simp only [acquireMany, run_ofFun] at hrun
  cases ha : s.locks.acquireMany who.thread (cells.map s.lockItem) mode with
  | mk r₁ t =>
    rw [ha] at hrun
    cases hrun
    have hreturned := balance_acquireMany hacc ha
    have htallied := tallied_acquireMany ht hacc who.thread (cells.map s.lockItem) mode
    rw [ha] at htallied
    obtain ⟨_, hafter⟩ := acquireMany_spec hacc ha
    cases r₁ with
    | error e => exact ⟨hafter, htallied, hreturned⟩
    | ok new =>
      obtain ⟨_, _, _, _, hafter⟩ := hafter
      exact ⟨hafter, htallied, hreturned⟩

theorem balances_dropAll (guards : List Guard) :
    Balances guards (update (·.dropAll guards)) (fun _ => []) [] := by
  intro G s r s' hacc ht hrun
  cases hrun
  rw [locks_dropAll]
  exact balance_releaseAll hacc ht

/-- The guards that are held while an action runs are given back after it. -/
theorem balances_ensuring {guards : List Guard} (h : Balanced a) :
    Balances guards (ensuring a (·.dropAll guards)) (fun _ => []) [] := by
  intro G s r s' hacc ht hrun
  cases hrun₁ : a.run s with
  | mk r₁ s₁ =>
    simp only [ensuring, run_ofFun, hrun₁] at hrun
    cases hrun
    have h₁ := h.frame guards G s r s₁ hacc ht hrun₁
    rw [left_const] at h₁ ⊢
    rw [locks_dropAll]
    exact h₁.trans (balance_releaseAll h₁.accounts h₁.tallied)

theorem balanced_holding {c : CellId} {mode : LockMode} (h : Balanced a) :
    Balanced (holding who c mode a) :=
  .bind (balances_acquire c mode) fun _ => balances_ensuring h

theorem balanced_holdingMany {cells : List CellId} {mode : LockMode} (h : Balanced a) :
    Balanced (holdingMany who cells mode a) :=
  .bind (balances_acquireMany cells mode) fun _ => balances_ensuring h

/-- An action whose outcome is looked at leaves the guards that go with it. -/
theorem balances_attempt (h : Balances H a K L) : Balances H (attempt a) (left K L) L := by
  intro G s r s' hacc ht hrun
  cases hrun₁ : a.run s with
  | mk r₁ s₁ =>
    simp only [attempt, run_ofFun, hrun₁] at hrun
    cases hrun
    exact h G s r₁ _ hacc ht hrun₁

theorem balanced_attempt (h : Balanced a) : Balanced (attempt a) := by
  have hattempt := balances_attempt h
  rwa [show (left (fun _ => []) [] : Except Error α → List Guard) = fun _ => [] from
    funext left_const] at hattempt

/-! ## Adding -/

theorem balanced_encodeRelationship (label : String) : Balanced (encodeRelationship label) :=
  balanced_of_locks fun _ => rfl

theorem balanced_encodeType (label : String) : Balanced (encodeType label) :=
  balanced_of_locks fun _ => rfl

theorem balanced_encodeTypes (type : Option String) : Balanced (type.mapM encodeType) := by
  cases type with
  | none => exact balanced_pure none
  | some label => exact .bind (balanced_encodeType label) fun code => balanced_pure (some code)

theorem balanced_findOrAdd (id : String) (manifestation : Manifestation) :
    Balanced (findOrAdd who id manifestation) := by
  refine .bind (balanced_read _) fun fault => .bind (balanced_refuse fault) fun _ =>
    .bind (balanced_read _) fun found => ?_
  cases found with
  | none =>
    exact .bind (balanced_read _) fun c => .bind (balanced_update fun _ => rfl) fun _ =>
      balanced_pure (c, true)
  | some c =>
    refine .bind (balanced_read _) fun present => ?_
    split
    · exact balanced_pure (c, false)
    · exact balanced_fail _

theorem balanced_create (id : String) (type : Option String) : Balanced (create who id type) := by
  refine .bind balanced_checkWritable fun _ => .bind (balanced_encodeTypes type) fun code =>
    .bind (balanced_findOrAdd id .real) fun (c, isNew) => balanced_holding ?_
  -- what follows once the type is known not to clash
  have hend : ∀ d : VertexData, Balanced (do
      if code.isSome then update (·.modifyData c fun d => { d with type := code })
      update (·.modifyData c (·.promote who.now))
      return if d.manifestation = .virtual then 1 else 0) := by
    intro d
    dsimp only
    split
    · exact .bind (balanced_modifyData c _) fun _ => .bind (balanced_modifyData c _) fun _ =>
        balanced_pure _
    · exact .bind (balanced_modifyData c _) fun _ => balanced_pure _
  split
  · exact .bind (balanced_modifyData c _) fun _ => balanced_pure 1
  · refine .bind (balanced_read _) fun d => ?_
    dsimp only
    split
    · split
      · exact .bind (balanced_read _) fun present => .bind (balanced_fail _) fun _ => hend d
      · exact hend d
    · exact hend d

/-! ## Connecting -/

theorem locks_putArc (s : Store) (i t : CellId) (relationship : LabelCode) (kind : ArcKind)
    (forwardOnly : Bool) (u : ArcUpdate) (now : UInt32) :
    (s.putArc i t relationship kind forwardOnly u now).2.locks = s.locks := by
  rw [putArc_snd]
  exact locks_putInward ..

theorem locks_connectTo (s : Store) (now : UInt32) (r : ConnectRequest) (relationship : LabelCode)
    (u : ArcUpdate) (i t : CellId) :
    (s.connectTo now r relationship u i t).2.locks = s.locks := by
  have hput := locks_putArc s i t relationship r.arc.kind r.arc.forwardOnly u now
  cases hp : s.putArc i t relationship r.arc.kind r.arc.forwardOnly u now with
  | mk a s₁ =>
    obtain ⟨isNew, value⟩ := a
    rw [hp] at hput
    simp only [connectTo, hp]
    cases r.lifespan with
    | none =>
      dsimp only
      split <;> exact hput
    | some lifespan => exact (locks_putArc s₁ i t relationship ..).trans hput

theorem balanced_connectHeld (r : ConnectRequest) (relationship : LabelCode) (u : ArcUpdate)
    (gate : Option Gate) (i : CellId) (terminals : List CellId) :
    Balanced (connectHeld who r relationship u gate i terminals) := by
  refine .bind (balanced_read _) fun s => .bind (balanced_ofExcept _) fun passing =>
    .bind (balanced_modifyData i _) fun _ => balanced_foldlM (fun acc t => ?_) passing (0, none)
  exact .bind (balanced_of_locks fun s => locks_connectTo ..) fun _ => balanced_pure _

theorem balanced_collectUnheld (cells : List CellId) : Balanced (collectUnheld who cells) := by
  refine balanced_forM (fun c => ?_) cells
  refine .bind (balances_attempt (balances_acquire c .writable)) fun got => ?_
  cases got with
  | ok g => exact balances_dropAll [g]
  | error e => exact balanced_pure ()

theorem balanced_terminalCells (initial : String) (i : CellId) (terminals : Terminals) :
    Balanced (terminalCells who initial i terminals) := by
  cases terminals with
  | one t =>
    simp only [terminalCells]
    split
    · exact balanced_pure _
    · exact .bind (balanced_findOrAdd t .virtual) fun (c, isNew) => balanced_pure _
  | list ids =>
    refine .bind (balanced_mapM (fun t => .bind (balanced_read _) fun found => ?_) ids)
      fun cells => balanced_pure _
    cases found with
    | none => exact balanced_fail _
    | some c => exact balanced_pure c

theorem balanced_connectAs (r : ConnectRequest) (relationship : LabelCode) (u : ArcUpdate)
    (gate : Option Gate) : Balanced (connectAs who r relationship u gate) := by
  refine .bind (balanced_findOrAdd r.initial .real) fun (i, _) =>
    .bind (balanced_terminalCells r.initial i r.terminals) fun (terminals, added) =>
      .bind (balances_attempt (balances_acquireMany _ .writable)) fun got => ?_
  cases got with
  | error e => exact .bind (balanced_collectUnheld added) fun _ => balanced_fail e
  | ok guards => exact balances_ensuring (balanced_connectHeld r relationship u gate i terminals)

theorem balanced_terminalIds (r : ConnectRequest) : Balanced (terminalIds r) := by
  unfold terminalIds
  split
  · exact balanced_pure _
  · exact .bind (balanced_read _) fun fault => .bind (balanced_refuse fault) fun _ =>
      balanced_pure _

theorem balanced_connectWith (r : ConnectRequest) (u : ArcUpdate) :
    Balanced (connectWith who r u) := by
  refine .bind balanced_checkWritable fun _ => .bind (balanced_read _) fun fault =>
    .bind (balanced_refuse fault) fun _ => ?_
  split
  · exact balanced_fail _
  · refine .bind (balanced_read _) fun gates => .bind (balanced_ofExcept gates) fun gate =>
      .bind (balanced_terminalIds r) fun ids => ?_
    split
    · exact balanced_pure _
    · exact .bind (balanced_read _) fun fault => .bind (balanced_refuse fault) fun _ =>
        .bind (balanced_encodeRelationship _) fun code => balanced_connectAs r code u gate

theorem balanced_connect (r : ConnectRequest) : Balanced (connect who r) :=
  .bind (balanced_ofExcept _) fun u => .bind (balanced_connectWith r u) fun _ => balanced_pure _

theorem balanced_writeValue (r : ConnectRequest) (u : ArcUpdate) (fault : Error) :
    Balanced (do
      match (← connectWith who r u).2 with
      | some value => return value
      | none => fail fault) := by
  refine .bind (balanced_connectWith r u) fun written => ?_
  split
  · exact balanced_pure _
  · exact balanced_fail _

theorem balanced_addTo (initial relationship terminal : String) (kind : ArcKind)
    (delta : Binary64) : Balanced (addTo who initial relationship terminal kind delta) := by
  unfold addTo
  dsimp only
  split
  · exact .bind (balanced_fail _) fun _ => balanced_writeValue _ _ _
  · exact balanced_writeValue _ _ _

/-! ## Disconnecting -/

theorem locks_detachAll (anchor neighbor : CellId) (arcs : List (Direction × StoredArc))
    (s : Store) : (detachAll anchor neighbor arcs s).2.locks = s.locks := by
  induction arcs generalizing s with
  | nil => rfl
  | cons p rest ih =>
    obtain ⟨direction, arc⟩ := p
    simp only [detachAll]
    split
    · exact (ih _).trans (size_locks_detach s neighbor anchor arc).2
    · exact (ih _).trans (size_locks_detach s anchor neighbor arc).2

theorem balance_severGroup (anchor : CellId) (key : VertexKey)
    (arcs : List (Direction × StoredArc)) (r : Removal) (s : Store)
    (hacc : s.locks.Accounts G) (ht : s.locks.Tallied) :
    Balance G s.locks [] (severGroup who anchor key arcs r s).2.locks [] := by
  have hsame : Balance G s.locks [] s.locks [] := .refl hacc ht
  unfold severGroup
  split
  · have hlocks := locks_detachAll anchor anchor arcs s
    exact hlocks.symm ▸ hsame
  · split
    · exact hsame
    · split
      · exact hsame
      next neighbor _ _ g locks ha =>
        have htaken := balance_acquire hacc ht ha
        have hlocks : (detachAll anchor neighbor arcs { s with locks }).2.locks = locks :=
          locks_detachAll ..
        refine htaken.trans ?_
        rw [locks_drop]
        exact hlocks.symm ▸ balance_releaseAll htaken.accounts htaken.tallied

theorem balance_severGroups (anchor : CellId)
    (groups : List (VertexKey × List (Direction × StoredArc))) (r : Removal) (s : Store)
    (hacc : s.locks.Accounts G) (ht : s.locks.Tallied) :
    Balance G s.locks [] (severGroups who anchor groups r s).2.locks [] := by
  induction groups generalizing r s with
  | nil => exact .refl hacc ht
  | cons group rest ih =>
    have hfirst : Balance G s.locks [] (severGroup who anchor group.1 group.2 r s).2.locks [] :=
      balance_severGroup anchor group.1 group.2 r s hacc ht
    exact hfirst.trans (ih _ _ hfirst.accounts hfirst.tallied)

theorem balanced_sever (anchor : CellId) (filter : ArcFilter) (direction : Direction)
    (neighbor : Option VertexKey) : Balanced (sever who anchor filter direction neighbor) := by
  intro G s r s' hacc ht hrun
  cases hrun
  rw [left_const]
  exact balance_severGroups anchor _ {} s hacc ht

theorem balanced_disconnect (anchor : String) (probe : Probe) (neighbor : Option String) :
    Balanced (disconnect who anchor probe neighbor) := by
  refine .bind balanced_checkWritable fun _ => .bind (balanced_read _) fun filters =>
    .bind (balanced_ofExcept filters) fun filter => .bind (balanced_find anchor) fun c =>
      balanced_holding ?_
  cases neighbor with
  | none => exact balanced_sever _ _ _ _
  | some id =>
    refine .bind (balanced_read _) fun found => ?_
    cases found with
    | none => exact balanced_pure 0
    | some n => exact .bind (balanced_read _) fun key => balanced_sever _ _ _ _

theorem balanced_delete (id : String) : Balanced (delete who id) := by
  refine .bind balanced_checkWritable fun _ => .bind (balanced_read _) fun found => ?_
  cases found with
  | none => exact balanced_pure 0
  | some c =>
    refine balanced_holding (.bind (balanced_modifyData c _) fun _ =>
      .bind (balanced_attempt (balanced_sever _ _ _ _)) fun outcome => ?_)
    cases outcome with
    | error e =>
      dsimp only
      split
      · exact .bind (balanced_update fun _ => rfl) fun _ => balanced_fail e
      · exact balanced_fail e
    | ok n =>
      refine .bind (balanced_read _) fun d => ?_
      split
      · exact .bind (balanced_modifyData c _) fun _ => balanced_pure 1
      · exact .bind (balanced_update fun s => locks_remove s c) fun _ => balanced_pure 1

/-! ## Expiring -/

theorem balanced_requireWritable (g : Guard) : Balanced (requireWritable g) := by
  unfold requireWritable
  split
  · exact balanced_pure ()
  · exact balanced_fail _

theorem balanced_setExpiration (g : Guard) (time : UInt32) : Balanced (setExpiration g time) :=
  .bind (balanced_requireWritable g) fun _ => balanced_update fun _ => rfl

theorem balances_acquireExisting (id : String) (mode : LockMode) :
    Balances [] (acquireExisting who id mode) (fun g => [g]) [] :=
  .bind (balanced_find id) fun c => balances_acquire c mode

theorem balanced_markExpiring (id : String) (time : UInt32) :
    Balanced (markExpiring who id time) :=
  .bind balanced_checkWritable fun _ => .bind (balances_acquireExisting id .writable) fun g =>
    balances_ensuring (balanced_setExpiration g time)

theorem balanced_markArcExpiring (initial relationship terminal : String) (time : UInt32) :
    Balanced (markArcExpiring who initial relationship terminal time) := by
  refine .bind balanced_checkWritable fun _ => .bind (balanced_read _) fun filters =>
    .bind (balanced_ofExcept filters) fun filter => .bind (balanced_read _) fun i =>
      .bind (balanced_read _) fun t => ?_
  dsimp only
  split
  · refine balanced_holdingMany (.bind (balanced_read _) fun there => ?_)
    split
    · exact .bind (balanced_connect _) fun _ => balanced_pure ()
    · exact balanced_fail _
  · exact balanced_fail _

theorem balanced_expire (item : Expiring) : Balanced (expire who item) := by
  cases item with
  | vertex id => exact .bind (balanced_delete id) fun n => balanced_pure (n, 0)
  | arc initial relationship terminal =>
    exact .bind (balanced_disconnect _ _ _) fun n => balanced_pure (0, n)

theorem balanced_expireAll (due : List (UInt32 × Expiring)) : Balanced (expireAll who due) := by
  induction due with
  | nil => exact balanced_pure _
  | cons entry rest ih =>
    obtain ⟨time, item⟩ := entry
    refine .bind (balanced_attempt (balanced_expire item)) fun outcome =>
      .bind ih fun (report, again) => ?_
    cases outcome with
    | ok counts => exact balanced_pure _
    | error e =>
      dsimp only
      split <;> exact balanced_pure _

theorem balanced_runExpiration (time : UInt32) : Balanced (runExpiration who time) :=
  .bind balanced_checkWritable fun _ => .bind (balanced_of_locks fun _ => rfl) fun due =>
    .bind (balanced_expireAll due) fun _ => .bind (balanced_update fun _ => rfl) fun _ =>
      .bind (balanced_read _) fun _ => balanced_pure _

/-! ## Restoring -/

theorem balanced_stageVertex (g : Staging) (v : VertexSnapshot) : Balanced (stageVertex g v) := by
  refine .bind (balanced_read _) fun fault => .bind (balanced_refuse fault) fun _ => ?_
  dsimp only
  split
  · exact balanced_fail _
  · exact .bind (balanced_encodeTypes v.type) fun type => balanced_pure _

theorem balanced_stageArc (g : Staging) (a : ArcSnapshot) : Balanced (stageArc g a) := by
  unfold stageArc
  split
  · exact balanced_fail _
  · exact .bind (balanced_encodeRelationship _) fun code => balanced_pure _

theorem balanced_restore (snapshot : Snapshot) : Balanced (restore snapshot) := by
  refine .bind balanced_checkWritable fun _ =>
    .bind (balanced_foldlM balanced_stageVertex _ _) fun g =>
      .bind (balanced_foldlM balanced_stageArc _ _) fun g => .bind (balanced_read _) fun n => ?_
  split
  · exact .bind (balanced_read _) fun name => .bind (balanced_fail _) fun _ =>
      balanced_update fun s => g.locks_commit s
  · exact balanced_update fun s => g.locks_commit s

/-! ## Reading -/

theorem balanced_vertexInfo (id : String) : Balanced (vertexInfo who id) :=
  .bind (balanced_find id) fun _ => balanced_holding (balanced_read _)

theorem balanced_arcValue (initial : String) (probe : Probe) (terminal : String) :
    Balanced (arcValue who initial probe terminal) := by
  refine .bind (balanced_read _) fun filters => .bind (balanced_ofExcept filters) fun filter =>
    .bind (balanced_find initial) fun c => balanced_holding
      (.bind (balanced_read _) fun found => ?_)
  cases found with
  | none => exact balanced_pure none
  | some t => exact .bind (balanced_read _) fun s => balanced_pure _

theorem balanced_adjacent (anchor : String) (probe : Probe) (neighbor : Option String) :
    Balanced (adjacent who anchor probe neighbor) := by
  refine .bind (balanced_read _) fun filters => .bind (balanced_ofExcept filters) fun filter =>
    .bind (balanced_find anchor) fun c => balanced_holding (.bind (balanced_read _) fun s => ?_)
  cases neighbor with
  | none => exact balanced_pure _
  | some id =>
    dsimp only
    split <;> exact balanced_pure _

theorem balanced_degree (anchor : String) (probe : Option Probe) :
    Balanced (degree who anchor probe) := by
  refine .bind (balanced_find anchor) fun c => balanced_holding
    (.bind (balanced_read _) fun s => ?_)
  cases probe with
  | none => exact balanced_pure _
  | some probe => exact .bind (balanced_ofExcept _) fun filter => balanced_pure _

theorem balanced_snapshot : Balanced (snapshot who) :=
  .bind (balanced_read _) fun _ =>
    .bind (balanced_mapM (fun _ => balanced_holding (balanced_read _)) _) fun _ => balanced_pure _

/-! ### Walks -/

theorem balanced_consider (level : PlannedLevel) (rank : Option Expression) {beneath : Descent}
    (hb : ∀ c w, Balanced (beneath c w)) (neighbor : CellId) (c : Candidate) (w : Walk) :
    Balanced (level.consider rank beneath neighbor c w) := by
  refine .bind (balanced_ofExcept _) fun (passed, w) => ?_
  dsimp only
  split
  · exact balanced_pure _
  · refine .bind (balanced_ofExcept _) fun w => .bind (hb neighbor w) fun (matched, w) => ?_
    dsimp only
    split
    · exact balanced_pure _
    · exact .bind (balanced_ofExcept _) fun _ => balanced_pure _

theorem balanced_visit (level : PlannedLevel) (plan : Plan) {beneath : Descent}
    (hb : ∀ c w, Balanced (beneath c w)) (anchor : CellId) (depth : Nat) (arc : SeenArc)
    (w : Walk) : Balanced (level.visit who plan beneath anchor depth arc w) := by
  obtain ⟨key, direction, stored⟩ := arc
  refine .bind (balanced_ofExcept _) fun _ => .bind (balanced_read _) fun found => ?_
  cases found with
  | none => exact balanced_pure _
  | some neighbor =>
    refine balanced_holding (.bind (balanced_read _) fun s => ?_)
    dsimp only
    split
    · exact balanced_consider level plan.rank hb neighbor _ _
    · exact balanced_pure _

theorem balanced_visitAll (level : PlannedLevel) {visit : SeenArc → Walk → Action (Bool × Walk)}
    (hv : ∀ arc w, Balanced (visit arc w)) (arcs : List SeenArc) (matched : Bool) (w : Walk) :
    Balanced (level.visitAll visit arcs matched w) := by
  induction arcs generalizing matched w with
  | nil => exact balanced_pure _
  | cons arc rest ih =>
    refine .bind (hv arc w) fun (survived, w) => ?_
    dsimp only
    split
    · exact balanced_pure _
    · exact ih _ w

theorem balanced_walkLevels (plan : Plan) (levels : List PlannedLevel) (depth : Nat)
    (c : CellId) (w : Walk) : Balanced (walkLevels who plan levels depth c w) := by
  induction levels generalizing depth c w with
  | nil => exact balanced_pure _
  | cons level below ih =>
    exact .bind (balanced_read _) fun arcs => balanced_visitAll level
      (balanced_visit level plan (ih (depth + 1)) c depth) arcs false w

theorem balanced_walk (p : Plan) : Balanced (p.walk who) :=
  .bind (balanced_find _) fun anchor => balanced_holding
    (.bind (balanced_walkLevels p _ 1 anchor {}) fun _ => balanced_pure _)

theorem balanced_plan (q : Query) : Balanced (plan q) :=
  .bind (balanced_read _) fun p => balanced_ofExcept p

theorem balanced_neighborhood (q : Query) : Balanced (neighborhood who q) :=
  .bind (balanced_plan q) fun p => .bind (balanced_walk p) fun _ => balanced_pure _

theorem balanced_aggregate (q : Query) : Balanced (aggregate who q) :=
  .bind (balanced_plan q) fun p => .bind (balanced_walk p) fun _ => balanced_pure _

end Action

end Arcbase
