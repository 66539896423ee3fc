import Arcbase.Proofs.Action.Quiet
import Arcbase.Proofs.Action.Settled
import Arcbase.Proofs.Snapshot.Restoring
import Arcbase.Proofs.Store.Growth
set_option autoImplicit false

/-!
# Careful actions

When a *careful* action fails so that it may be retried, the graph is as it was, but for
vertices that the action has registered first: a bare real one for each of some
identifiers, where it was missing (`Store.fresh`).  Most actions register none and are
settled once they hold what they need.
-/

namespace Arcbase

namespace Store

/-- The vertices that a call registers for some identifiers before it holds anything; a
call that is refused at once registers none. -/
def fresh (s : Store) (who : Caller) (ids : List String) : List Cell :=
  if s.locks.readonly then []
  else (ids.filter fun id => (s.lookupKey (.of id)).isNone).map fun id =>
    { id, key := .of id, data := .new .real who.now }

theorem fresh_nil (s : Store) (who : Caller) : s.fresh who [] = [] := by
  rw [fresh]
  split <;> rfl

theorem fresh_eq_nil_iff {s : Store} {who : Caller} {ids : List String} : s.fresh who ids = [] ↔
    s.locks.readonly = true ∨ ∀ id ∈ ids, ∃ c, s.lookupKey (.of id) = some c := by
  rw [fresh]
  split
  next hup => exact iff_of_true rfl (.inl hup)
  next hdown =>
    rw [List.map_eq_nil_iff, List.filter_eq_nil_iff, or_iff_right hdown]
    refine forall₂_congr fun id _ => ?_
    rw [Option.isNone_iff_eq_none, ← ne_eq, Option.ne_none_iff_exists']

theorem bare_of_mem_fresh {s : Store} {who : Caller} {ids : List String} {vertex : Cell}
    (h : vertex ∈ s.fresh who ids) : vertex.data.out = .empty := by
  rw [fresh] at h
  split at h
  · exact absurd h List.not_mem_nil
  · obtain ⟨id, _, rfl⟩ := List.mem_map.1 h
    rfl

end Store

namespace Action

open Store

variable {α β : Type} {agree : Agreement} {G : List Guard} {who : Caller} {checked : Prop}
  {ids : List String}

/-- After an error that asks to be retried the graph has only grown by fresh vertices.
The action may rely on the graph not being readonly if that has been checked. -/
def Careful (agree : Agreement) (G : List Guard) (who : Caller) (checked : Prop)
    (ids : List String) (a : Action α) : Prop :=
  ∀ s e s', s.Sound agree → s.Guarded G → (checked → s.locks.readonly = false) →
    a.run s = (.error e, s') → e.isRetrySafe = true → Grown (s.fresh who ids) s s'

theorem Avoids.careful {a : Action α} (ha : Avoids Error.isRetrySafe a) :
    Careful agree G who checked ids a := by
  intro s e s' _ _ _ hrun hsafe
  rw [ha s e s' hrun] at hsafe
  cases hsafe

theorem Quiet.careful {a : Action α} {Q : α → Store → Prop}
    (ha : Quiet agree G (fun _ => True) a Q) : Careful agree G who checked [] a := by
  intro s e s' hs hg _ hrun _
  obtain ⟨hsame, hsettings, _⟩ := ha s _ s' hs hg trivial hrun
  rw [fresh_nil, hsame]
  exact grown_locks hsettings

theorem Labelling.careful {a : Action α} {Q : α → Prop} (ha : Labelling a Q) :
    Careful agree G who checked [] a := by
  intro s e s' _ _ _ hrun _
  rw [fresh_nil, (ha s _ s' hrun).1]
  exact grown_labels s _

/-! ## Sequences -/

/-- What comes before may add labels, as long as it is settled. -/
theorem careful_labelling_bind {a : Action α} {f : α → Action β} {Q : α → Prop}
    (ha : Labelling a Q) (hsettled : Settled a)
    (hf : ∀ x, Q x → Careful agree G who checked ids (f x)) :
    Careful agree G who checked ids (a >>= f) := by
  intro s e s' hs hg hchecked hrun hsafe
  rw [run_bind] at hrun
  cases hrun₁ : a.run s with
  | mk r s₁ =>
    rw [hrun₁] at hrun
    obtain ⟨hsame, hq⟩ := ha s r s₁ hrun₁
    cases r with
    | error e₁ =>
      cases hrun
      rw [hsettled s e _ hrun₁] at hsafe
      cases hsafe
    | ok x =>
      have hs₁ : s₁.Sound agree := by
        rw [hsame]
        exact hs.withLabels _
      have hg₁ : s₁.Guarded G := by
        rw [hsame]
        exact ⟨hg.accounts, hg.item⟩
      have hgrown := hf x (hq x rfl) s₁ e s' hs₁ hg₁ (by rw [hsame]; exact hchecked) hrun hsafe
      rw [hsame] at hgrown
      exact (grown_labels s _).nil_trans hgrown

theorem careful_read_bind {f : Store → α} {k : α → Action β}
    (hk : ∀ x, Careful agree G who checked ids (k x)) :
    Careful agree G who checked ids (read f >>= k) :=
  careful_labelling_bind labelling_read (avoids_read f) fun x _ => hk x

/-- Something that is read off the store, and may be a failure that is not retried. -/
theorem careful_readExcept_bind {f : Store → Except Error α} {k : α → Action β}
    (hf : ∀ s e, f s = .error e → e.isRetrySafe = false)
    (hk : ∀ x, Careful agree G who checked ids (k x)) :
    Careful agree G who checked ids (read f >>= fun x => ofExcept x >>= k) := by
  intro s e s' hs hg hchecked hrun hsafe
  simp only [run_bind, read, run_ofFun, ofExcept] at hrun
  cases hx : f s with
  | error e₁ =>
    rw [hx] at hrun
    cases hrun
    rw [hf s e hx] at hsafe
    cases hsafe
  | ok x =>
    rw [hx] at hrun
    exact hk x s e s' hs hg hchecked hrun hsafe

theorem careful_refuse_bind {fault : Option VertexFault} {k : Unit → Action β}
    (hk : Careful agree G who checked ids (k ())) :
    Careful agree G who checked ids (refuse fault >>= k) :=
  careful_labelling_bind labelling_refuse (final_refuse fault).settled fun _ _ => hk

theorem labelling_find (id : String) : Labelling (find id) fun _ => True := by
  refine labelling_bind labelling_read fun found _ => ?_
  cases found with
  | none => exact labelling_fail
  | some c => exact labelling_pure trivial

theorem careful_find_bind {id : String} {k : CellId → Action β}
    (hk : ∀ c, Careful agree G who checked ids (k c)) :
    Careful agree G who checked ids (find id >>= k) :=
  careful_labelling_bind (labelling_find id) (final_find id).settled fun c _ => hk c

/-- A call that finds the graph readonly registers nothing. -/
theorem careful_checkWritable_bind {k : Unit → Action β}
    (hk : Careful agree G who True ids (k ())) :
    Careful agree G who checked ids (checkWritable >>= k) := by
  intro s e s' hs hg _ hrun hsafe
  simp only [run_bind, checkWritable, run_ofFun, LockTable.checkWritable] at hrun
  cases hflag : s.locks.readonly with
  | true =>
    rw [hflag, if_pos rfl] at hrun
    cases hrun
    rw [fresh, hflag, if_pos rfl]
    exact .refl s
  | false =>
    rw [hflag, if_neg Bool.false_ne_true] at hrun
    exact hk s e s' hs hg (fun _ => hflag) hrun hsafe

/-! ## Holding -/

/-- What is done once a vertex is held has to be settled. -/
theorem careful_acquire_bind {c : CellId} {mode : LockMode} {k : Guard → Action β}
    (hk : ∀ g, (mode = .writable → g.hold = .writer) → Settled (k g)) :
    Careful agree G who checked [] (acquire who c mode >>= k) := by
  intro s e s' _ _ _ hrun hsafe
  rw [fresh_nil]
  simp only [run_bind, acquire, run_ofFun] at hrun
  cases hacq : s.locks.acquire who.thread (s.lockItem c) mode with
  | error e₁ =>
    rw [hacq] at hrun
    cases hrun
    exact .refl s
  | ok p =>
    obtain ⟨g, t⟩ := p
    rw [hacq] at hrun
    have hwriter : mode = .writable → g.hold = .writer := by
      obtain ⟨_, _, _, _, ⟨hmode, _⟩ | ⟨_, hhold, _⟩⟩ := LockTable.acquire_ok hacq
      · intro e
        cases hmode.symm.trans e
      · exact fun _ => hhold
    rw [hk g hwriter _ e s' hrun] at hsafe
    cases hsafe

theorem careful_holding {c : CellId} {mode : LockMode} {body : Action β} (hbody : Settled body) :
    Careful agree G who checked [] (holding who c mode body) :=
  careful_acquire_bind fun _ _ => avoids_ensuring hbody _

theorem grown_acquireMany_bind {cells : List CellId} {mode : LockMode}
    {k : List Guard → Action β} (hk : ∀ guards, Settled (k guards)) {s s' : Store} {e : Error}
    (hg : s.Guarded G) (hrun : (acquireMany who cells mode >>= k).run s = (.error e, s'))
    (hsafe : e.isRetrySafe = true) : Grown [] s s' := by
  simp only [run_bind, acquireMany, run_ofFun] at hrun
  cases hacq : s.locks.acquireMany who.thread (cells.map s.lockItem) mode with
  | mk r t =>
    rw [hacq] at hrun
    obtain ⟨hsettings, _⟩ := LockTable.acquireMany_spec hg.accounts hacq
    cases r with
    | error e₁ =>
      cases hrun
      exact grown_locks hsettings
    | ok guards =>
      rw [hk guards _ e s' hrun] at hsafe
      cases hsafe

theorem careful_acquireMany_bind {cells : List CellId} {mode : LockMode}
    {k : List Guard → Action β} (hk : ∀ guards, Settled (k guards)) :
    Careful agree G who checked [] (acquireMany who cells mode >>= k) := by
  intro s e s' _ hg _ hrun hsafe
  rw [fresh_nil]
  exact grown_acquireMany_bind hk hg hrun hsafe

end Action

end Arcbase
