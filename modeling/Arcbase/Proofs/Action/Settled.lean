import Arcbase.Proofs.Action.Orderly
import Arcbase.Store.Connect
import Arcbase.Store.Expiration
set_option autoImplicit false

/-!
# Settled actions

An action is *settled* if none of its errors asks to be retried: whatever could stand in
its way is held already.  It is *final* if none of them tells of a hindrance at all, that is,
if it does not end part way either.
-/

namespace Arcbase.Action

open Store

variable {α β : Type} {who : Caller} {sort : Error → Bool}

/-- No error of the action is of a sort. -/
def Avoids (sort : Error → Bool) (a : Action α) : Prop :=
  ∀ s e s', a.run s = (.error e, s') → sort e = false

/-- No error of the action is one after which it may be retried. -/
abbrev Settled (a : Action α) : Prop := Avoids Error.isRetrySafe a

/-- No error of the action is one after which it may be retried, or one that leaves it done
in part. -/
abbrev Final (a : Action α) : Prop := Avoids (fun e => e.isRetrySafe || e.partialCount.isSome) a

theorem Avoids.settled {a : Action α} (h : Final a) : Settled a := fun s e s' hrun =>
  (Bool.or_eq_false_iff.1 (h s e s' hrun)).1

theorem avoids_pure (x : α) : Avoids sort (pure x) := fun _ _ _ hrun => nomatch hrun

theorem avoids_ofExcept {x : Except Error α} (h : ∀ e, x = .error e → sort e = false) :
    Avoids sort (ofExcept x) := by
  intro s e s' hrun
  cases hrun
  exact h e rfl

theorem avoids_fail {e : Error} (h : sort e = false) : Avoids sort (fail e : Action α) :=
  avoids_ofExcept fun _ he => Except.error.inj he ▸ h

theorem avoids_ofFun {f : Store → Except Error α × Store} (h : ∀ s, ∃ x, (f s).1 = .ok x) :
    Avoids sort (ofFun f) := by
  intro s e s' hrun
  obtain ⟨x, hx⟩ := h s
  rw [run_ofFun] at hrun
  rw [hrun] at hx
  cases hx

theorem avoids_read (f : Store → α) : Avoids sort (read f) := avoids_ofFun fun s => ⟨f s, rfl⟩

theorem avoids_update (f : Store → Store) : Avoids sort (update f) :=
  avoids_ofFun fun _ => ⟨(), rfl⟩

theorem final_refuse (fault : Option VertexFault) : Final (refuse fault) := by
  cases fault with
  | none => exact avoids_pure ()
  | some f => exact avoids_fail rfl

theorem avoids_bind {a : Action α} {f : α → Action β} (ha : Avoids sort a)
    (hf : ∀ x, Avoids sort (f x)) : Avoids sort (a >>= f) := by
  intro s e s' hrun
  rw [run_bind] at hrun
  cases hrun₁ : a.run s with
  | mk r s₁ =>
    rw [hrun₁] at hrun
    cases r with
    | error e₁ =>
      cases hrun
      exact ha s e _ hrun₁
    | ok x => exact hf x s₁ e s' hrun

/-- What is done with an outcome matters only for errors of the action. -/
theorem avoids_attempt_bind {a : Action α} {f : Except Error α → Action β} (ha : Avoids sort a)
    (hok : ∀ x, Avoids sort (f (.ok x)))
    (herror : ∀ e, sort e = false → Avoids sort (f (.error e))) :
    Avoids sort (attempt a >>= f) := by
  intro s e s' hrun
  rw [run_bind, attempt, run_ofFun] at hrun
  cases hrun₁ : a.run s with
  | mk r s₁ =>
    rw [hrun₁] at hrun
    cases r with
    | error e₁ => exact herror e₁ (ha s e₁ s₁ hrun₁) s₁ e s' hrun
    | ok x => exact hok x s₁ e s' hrun

theorem avoids_ensuring {a : Action α} (ha : Avoids sort a) (f : Store → Store) :
    Avoids sort (ensuring a f) := by
  intro s e s' hrun
  rw [ensuring, run_ofFun] at hrun
  cases hrun₁ : a.run s with
  | mk r s₁ =>
    rw [hrun₁] at hrun
    cases hrun
    exact ha s e s₁ hrun₁

theorem avoids_foldlM {xs : List α} {f : β → α → Action β} (h : ∀ b x, Avoids sort (f b x))
    (b : β) : Avoids sort (xs.foldlM f b) := by
  induction xs generalizing b with
  | nil => exact avoids_pure b
  | cons x rest ih =>
    rw [List.foldlM_cons]
    exact avoids_bind (h b x) ih

theorem avoids_forM {xs : List α} {f : α → Action Unit} (h : ∀ x, Avoids sort (f x)) :
    Avoids sort (xs.forM f) := by
  induction xs with
  | nil => exact avoids_pure ()
  | cons x rest ih => exact avoids_bind (h x) fun _ => ih

theorem avoids_mapM {xs : List α} {f : α → Action β} (h : ∀ x, Avoids sort (f x)) :
    Avoids sort (xs.mapM f) := by
  induction xs with
  | nil => exact avoids_pure []
  | cons x rest ih =>
    rw [List.mapM_cons]
    exact avoids_bind (h x) fun _ => avoids_bind ih fun _ => avoids_pure _

/-! ## Looking up and encoding -/

theorem final_find (id : String) : Final (find id) := by
  refine avoids_bind (avoids_read _) fun found => ?_
  cases found with
  | none => exact avoids_fail rfl
  | some c => exact avoids_pure c

theorem final_findOrAdd (id : String) (manifestation : Manifestation) :
    Final (findOrAdd who id manifestation) := by
  refine avoids_bind (avoids_read _) fun _ => avoids_bind (final_refuse _) fun _ => ?_
  refine avoids_bind (avoids_read _) fun found => ?_
  cases found with
  | none =>
    refine avoids_bind (avoids_read _) fun _ => ?_
    exact avoids_bind (avoids_update _) fun _ => avoids_pure _
  | some c =>
    refine avoids_bind (avoids_read _) fun present => ?_
    split
    · exact avoids_pure _
    · exact avoids_fail rfl

theorem final_encodeRelationship (label : String) : Final (encodeRelationship label) := by
  intro s e s' hrun
  have hcode : (s.labels.encodeRelationship label).1 = .error e := congrArg Prod.fst hrun
  cases hl : s.labels with
  | mk relationships types =>
    rw [hl] at hcode
    simp only [Labels.encodeRelationship] at hcode
    cases hfound : (relationships.encode label).1 with
    | none =>
      rw [hfound] at hcode
      exact Except.error.inj hcode ▸ rfl
    | some code =>
      rw [hfound] at hcode
      cases hcode

theorem final_encodeType (label : String) : Final (encodeType label) := by
  intro s e s' hrun
  have hcode : (s.labels.encodeType label).1 = .error e := congrArg Prod.fst hrun
  cases hl : s.labels with
  | mk relationships types =>
    rw [hl] at hcode
    simp only [Labels.encodeType] at hcode
    cases hfound : (types.encode label).1 with
    | none =>
      rw [hfound] at hcode
      exact Except.error.inj hcode ▸ rfl
    | some code =>
      rw [hfound] at hcode
      cases hcode

theorem fault_of_filterOf {s : Store} {probe : Probe} {e : Error}
    (h : s.filterOf probe = .error e) : ∃ fault, e = .query fault := by
  rw [filterOf, ArcFilter.ofProbe] at h
  split at h
  · exact ⟨_, (Except.error.inj h).symm⟩
  · split at h
    · cases h
    · exact ⟨_, (Except.error.inj h).symm⟩
    · split at h <;> cases h

theorem filterOf_error {s : Store} {probe : Probe} {e : Error} (h : s.filterOf probe = .error e) :
    e.isRetrySafe = false := by
  obtain ⟨_, rfl⟩ := fault_of_filterOf h
  rfl

/-! ## Writing arcs and taking them off -/

/-- What stands against a terminal does not leave a connect done in part. -/
theorem partialCount_of_admitted {s : Store} {r : ArcRequest} {relationship : LabelCode}
    {gate : Option Gate} {i : CellId} {terminals : List CellId} {fault : ArcError}
    (h : admitted s r relationship gate i terminals = .error fault) :
    (Error.arc fault).partialCount = none := by
  unfold admitted at h
  dsimp only at h
  split at h
  next found =>
    cases h
    obtain ⟨t, _, hfault⟩ := List.exists_of_findSome?_eq_some found
    rw [arcFault?] at hfault
    split at hfault
    · cases hfault
      rfl
    · split at hfault
      · cases hfault
        rfl
      · split at hfault <;> cases hfault
        rfl
  next => cases h

theorem final_connectHeld (r : ConnectRequest) (relationship : LabelCode) (u : ArcUpdate)
    (gate : Option Gate) (i : CellId) (terminals : List CellId) :
    Final (connectHeld who r relationship u gate i terminals) := by
  refine avoids_bind (avoids_read _) fun s => avoids_bind (avoids_ofExcept fun e he => ?_)
    fun passing => ?_
  · cases hfault : admitted s r.arc relationship gate i terminals with
    | error fault =>
      rw [hfault] at he
      cases he
      rw [partialCount_of_admitted hfault]
      rfl
    | ok passing =>
      rw [hfault] at he
      cases he
  · refine avoids_bind (avoids_update _) fun _ => avoids_foldlM (fun (added, _) t => ?_) _
    exact avoids_bind (avoids_ofFun fun s => ⟨_, rfl⟩) fun _ => avoids_pure _

theorem settled_sever (anchor : CellId) (filter : ArcFilter) (direction : Direction)
    (neighbor : Option VertexKey) : Settled (sever who anchor filter direction neighbor) := by
  intro s e s' hrun
  rw [sever, run_ofFun] at hrun
  have hresult := congrArg Prod.fst hrun
  dsimp only at hresult
  rw [Removal.result] at hresult
  split at hresult
  · cases hresult
    rfl
  · cases hresult

theorem final_setExpiration {g : Guard} (hg : g.hold = .writer) (time : UInt32) :
    Final (setExpiration g time) := by
  refine avoids_bind ?_ fun _ => avoids_update _
  rw [requireWritable, Guard.isWritable, hg]
  exact avoids_pure ()

end Arcbase.Action
