import Arcbase.Proofs.Scene.Opening
import Arcbase.Proofs.Session.Balanced
import Mathlib
set_option autoImplicit false

/-!
# Read-only graphs

While the read-only flag is up, no operation but the one that lowers it changes the graph:
an operation that writes is refused at its start, a handle is a reader's and cannot be
escalated, and what is left touches the locks only (`locksOnly_after`).

The flag is up only while no vertex is held writable, and no operation makes one so
(`frozen_run`).
-/

namespace Arcbase

open Arcbase.Action Store LockTable

namespace Store

variable {s s' s'' : Store}

/-- The store `s'` is `s`, apart from the guards that are held. -/
structure LocksOnly (s s' : Store) : Prop where
  graph : s' = { s with locks := s'.locks }
  settings : s.locks.SameSettings s'.locks

theorem LocksOnly.refl (s : Store) : s.LocksOnly s := ⟨rfl, .refl _⟩

theorem LocksOnly.trans (h : s.LocksOnly s') (h' : s'.LocksOnly s'') : s.LocksOnly s'' :=
  ⟨by rw [h'.graph, h.graph], h.settings.trans h'.settings⟩

theorem LocksOnly.readonly (h : s.LocksOnly s') (hup : s.locks.readonly = true) :
    s'.locks.readonly = true := h.settings.readonly.trans hup

theorem locksOnly_locks (s : Store) {t : LockTable} (h : s.locks.SameSettings t) :
    s.LocksOnly { s with locks := t } := ⟨rfl, h⟩

/-- A reader's guard is given up without a look at its vertex. -/
theorem locksOnly_drop (s : Store) {g : Guard} (hg : g.hold = .reader) :
    s.LocksOnly (s.drop g) := by
  have hdrop : s.drop g = { s with locks := s.locks.release g } := by
    simp [drop, Guard.isWritable, hg]
  rw [hdrop]
  exact locksOnly_locks s (sameSettings_release _ g)

end Store

/-! ## Actions -/

namespace Action

variable {α β : Type} {a : Action α} {who : Caller} {g : Guard}

/-- The action changes the locks only, while the read-only flag is up. -/
def Still (a : Action α) : Prop :=
  ∀ s : Store, s.locks.readonly = true → s.LocksOnly (a.run s).2

theorem Still.bind {f : α → Action β} (ha : Still a) (hf : ∀ x, Still (f x)) :
    Still (a >>= f) := by
  intro s hup
  rw [run_bind]
  cases hrun : a.run s with
  | mk r s₁ =>
    have h₁ := ha s hup
    rw [hrun] at h₁
    cases r with
    | error e => exact h₁
    | ok x => exact h₁.trans (hf x s₁ (h₁.readonly hup))

theorem still_pure (x : α) : Still (pure x) := fun s _ => .refl s

theorem still_read (f : Store → α) : Still (read f) := fun s _ => .refl s

theorem still_ofExcept (x : Except Error α) : Still (ofExcept x) := fun s _ => .refl s

theorem still_find (id : String) : Still (find id) := by
  refine .bind (still_read _) fun found => ?_
  cases found with
  | none => exact still_ofExcept _
  | some c => exact still_pure c

theorem still_acquire (c : CellId) (mode : LockMode) : Still (acquire who c mode) := by
  intro s _
  simp only [acquire, run_ofFun]
  cases ha : s.locks.acquire who.thread (s.lockItem c) mode with
  | error e => exact .refl s
  | ok p => exact locksOnly_locks s (sameSettings_acquire ha)

theorem still_acquireMany (cells : List CellId) (mode : LockMode) :
    Still (acquireMany who cells mode) := fun s _ =>
  locksOnly_locks s (sameSettings_acquireMany ..)

theorem still_mapM {f : α → Action β} (h : ∀ x, Still (f x)) (xs : List α) :
    Still (xs.mapM f) := by
  induction xs with
  | nil => exact still_pure []
  | cons x rest ih =>
    rw [List.mapM_cons]
    exact .bind (h x) fun y => .bind ih fun ys => still_pure (y :: ys)

theorem still_forM {f : α → Action Unit} (h : ∀ x, Still (f x)) (xs : List α) :
    Still (xs.forM f) := by
  induction xs with
  | nil => exact still_pure ()
  | cons x rest ih => exact .bind (h x) fun _ => ih

/-- What is refused while the flag is up. -/
theorem still_checkWritable (f : Unit → Action α) : Still (checkWritable >>= f) := by
  intro s hup
  rw [run_bind, run_checkWritable, if_pos hup]
  exact .refl s

/-- What is refused to a reader. -/
theorem still_requireWritable (hg : g.hold = .reader) (f : Unit → Action α) :
    Still (requireWritable g >>= f) := by
  have hrefused : requireWritable g = fail (.access .notHeld) := by
    simp [requireWritable, Guard.isWritable, hg]
  intro s _
  rw [hrefused]
  exact .refl s

theorem still_connectWith (r : ConnectRequest) (u : ArcUpdate) : Still (connectWith who r u) :=
  still_checkWritable _

theorem still_connect (r : ConnectRequest) : Still (connect who r) :=
  .bind (still_ofExcept _) fun u => .bind (still_connectWith r u) fun _ => still_pure _

theorem still_writeValue (r : ConnectRequest) (u : ArcUpdate) (fault : Error) :
    Still (do
      match (← connectWith who r u).2 with
      | some value => return value
      | none => fail fault) := by
  refine .bind (still_connectWith r u) fun written => ?_
  split
  · exact still_pure _
  · exact still_ofExcept _

theorem still_addTo (initial relationship terminal : String) (kind : ArcKind)
    (delta : Binary64) : Still (addTo who initial relationship terminal kind delta) := by
  unfold addTo
  dsimp only
  split
  · exact .bind (still_ofExcept _) fun _ => still_writeValue _ _ _
  · exact still_writeValue _ _ _

/-! ### Opening -/

theorem still_openVertex (who : Caller) (id : String) (mode : OpenMode) :
    Still (openVertex who id mode) := by
  cases mode with
  | readonly => exact .bind (still_find id) fun c => still_acquire c .readonly
  | append => exact still_checkWritable _
  | write => exact still_checkWritable _

theorem still_openVertices (who : Caller) (ids : List String) (mode : OpenMode) :
    Still (openVertices who ids mode) := by
  unfold openVertices
  split
  next => exact still_ofExcept _
  next =>
    cases mode with
    | readonly =>
      exact .bind (still_mapM still_find ids) fun cells =>
        .bind (still_acquireMany cells .readonly) fun _ =>
          .bind (still_forM (fun _ => still_pure ()) cells) fun _ => still_pure _
    | append => exact still_checkWritable _
    | write => exact still_checkWritable _

/-! ### Handles -/

theorem still_relax (hg : g.hold = .reader) : Still (relax g) := by
  intro s _
  have hkept : s.surrender g = s := by simp [surrender, Guard.isWritable, hg]
  have hsame : s.locks.relax g = (some g, s.locks) := by simp [LockTable.relax, hg]
  rw [run_relax, hkept, hsame]
  dsimp only
  split
  · exact locksOnly_drop s hg
  · exact .refl s

theorem still_handleRequest {α : Type} (hg : g.hold = .reader) (r : HandleRequest α) :
    Still (r.action who g) := by
  cases r with
  | view => exact still_read _
  | setProperty name value => exact still_requireWritable hg _
  | removeProperty name => exact still_requireWritable hg _
  | setVector vector => exact still_requireWritable hg _
  | setExpiration time => exact still_requireWritable hg _

end Action

/-- Whether a request lowers the read-only flag. -/
def Request.isLowering {α : Type} : Request α → Bool
  | .clearReadonly => true
  | _ => false

/-- A request either only reads, or moves the flag, or is refused while the flag is up. -/
theorem still_request {who : Caller} {α : Type} (r : Request α) (hreads : r.isReading = false)
    (hflags : r.isFlagging = false) : Still (r.action who) := by
  cases r with
  | create id type => exact still_checkWritable _
  | delete id => exact still_checkWritable _
  | connect r => exact still_connect r
  | disconnect anchor probe neighbor => exact still_checkWritable _
  | count initial relationship terminal delta =>
    exact .bind (still_addTo _ _ _ _ _) fun _ => still_pure _
  | accumulate initial relationship terminal delta =>
    exact .bind (still_addTo _ _ _ _ _) fun _ => still_pure _
  | addTo initial relationship terminal kind delta => exact still_addTo _ _ _ _ _
  | markExpiring id time => exact still_checkWritable _
  | markArcExpiring initial relationship terminal time => exact still_checkWritable _
  | runExpiration time => exact still_checkWritable _
  | restore s => exact still_checkWritable _
  | setReadonly => cases hflags
  | clearReadonly => cases hflags
  | _ => cases hreads

/-! ## Operations -/

namespace Session

variable {s : Session} {g : Guard}

/-- All handles are readers'. -/
def Reading (s : Session) : Prop := ∀ name g, s.handle? name = some g → g.hold = .reader

theorem locksOnly_close (h : s.Reading) (name : GuardName) :
    s.store.LocksOnly (s.close name).store ∧ (s.close name).Reading := by
  unfold close
  cases hg : s.handle? name with
  | none => exact ⟨.refl _, h⟩
  | some g =>
    refine ⟨locksOnly_drop s.store (h name g hg), fun name' g' hg' => ?_⟩
    change (s.handles.erase name).get? name' = some g' at hg'
    rw [AssocMap.get?_erase] at hg'
    split at hg'
    · cases hg'
    · exact h name' g' hg'

theorem locksOnly_keep (h : s.Reading) (name : GuardName) (hg : g.hold = .reader) :
    s.store.LocksOnly (s.keep name g).store ∧ (s.keep name g).Reading := by
  obtain ⟨hclosed, hreading⟩ := locksOnly_close h name
  refine ⟨hclosed, fun name' g' hg' => ?_⟩
  change ((s.close name).handles.insert name g).get? name' = some g' at hg'
  rw [AssocMap.get?_insert] at hg'
  split at hg'
  · exact Option.some.inj hg' ▸ hg
  · exact hreading name' g' hg'

theorem locksOnly_keepAll {new : List Guard} (h : s.Reading) (u : Thread) (names : List String)
    (hnew : ∀ g ∈ new, g.hold = .reader) : s.store.LocksOnly (s.keepAll u names new).store := by
  induction new generalizing s names with
  | nil => cases names <;> exact .refl _
  | cons g rest ih =>
    have hg := hnew g List.mem_cons_self
    have hrest : ∀ g ∈ rest, g.hold = .reader := fun g' hm => hnew g' (List.mem_cons_of_mem g hm)
    cases names with
    | nil => exact (locksOnly_drop s.store hg).trans (ih (s := { s with store := s.store.drop g })
        h [] hrest)
    | cons name names =>
      obtain ⟨hkept, hreading⟩ := locksOnly_keep h ⟨u, name⟩ hg
      exact hkept.trans (ih hreading names hrest)

end Session

namespace Operation

variable {s : Session} {who : Caller}

/-- The operations that leave the read-only flag up. -/
def KeepsUp : Operation → Prop
  | ask r => r.isLowering = false
  | _ => True

theorem reading_of_readonly (hs : s.Sound .slots) (ht : s.store.locks.Tallied)
    (hup : s.store.locks.readonly = true) : s.Reading := fun _ _ hg =>
  ht.reading hs.guarded.accounts hup (Session.mem_guards_of_handle? hg)

/-- The flag is raised again. -/
theorem locksOnly_setReadonly (ht : s.store.locks.Tallied) (hup : s.store.locks.readonly = true) :
    s.store.LocksOnly (s.ask who .setReadonly).2.store := by
  have hlocks : (s.store.locks.setReadonly s.store.config.name).2 =
      { s.store.locks with readonly := true } := by
    rw [LockTable.setReadonly, if_neg (Nat.not_lt.2 (Nat.le_of_eq (ht.idle hup)))]
  have hafter : (s.ask who .setReadonly).2.store =
      { s.store with locks := (s.store.locks.setReadonly s.store.config.name).2 } := rfl
  rw [hafter, hlocks]
  exact locksOnly_locks s.store ⟨rfl, hup.symm⟩

theorem locksOnly_ask (hs : s.Sound .slots) (ht : s.store.locks.Tallied)
    (hup : s.store.locks.readonly = true) {α : Type} (r : Request α)
    (hr : r.isLowering = false) : s.store.LocksOnly (s.ask who r).2.store := by
  cases hreads : r.isReading with
  | true =>
    obtain ⟨hgraph, hset, -⟩ :=
      quiet_request who r hreads s.store _ _ hs.store hs.guarded trivial rfl
    exact ⟨hgraph, hset⟩
  | false =>
    cases hflags : r.isFlagging with
    | false => exact still_request r hreads hflags s.store hup
    | true =>
      cases r with
      | setReadonly => exact locksOnly_setReadonly ht hup
      | clearReadonly => cases hr
      | _ => cases hflags

theorem locksOnly_openVertex (h : s.Reading) (hs : s.Sound .slots) (ht : s.store.locks.Tallied)
    (hup : s.store.locks.readonly = true) (name id : String) (mode : OpenMode) :
    s.store.LocksOnly (s.openVertex who name id mode).2.store := by
  have hstill := still_openVertex who id mode s.store hup
  cases hrun : (Action.openVertex who id mode).run s.store with
  | mk r store =>
    have hopened := balances_openVertex id mode s.guards s.store r store hs.guarded.accounts ht hrun
    rw [hrun] at hstill
    simp only [Session.openVertex, Session.perform, hrun]
    cases r with
    | error e => exact hstill
    | ok g =>
      have hg := hopened.tallied.reading hopened.accounts (hstill.readonly hup) List.mem_cons_self
      exact hstill.trans (Session.locksOnly_keep (s := { s with store }) h _ hg).1

theorem locksOnly_openVertices (h : s.Reading) (hs : s.Sound .slots)
    (ht : s.store.locks.Tallied) (hup : s.store.locks.readonly = true) (names ids : List String)
    (mode : OpenMode) : s.store.LocksOnly (s.openVertices who names ids mode).2.store := by
  have hstill := still_openVertices who ids mode s.store hup
  have htallied := tallies_openVertices who ids mode s.guards s.store
    hs.guarded.accounts ht
  cases hrun : (Action.openVertices who ids mode).run s.store with
  | mk r store =>
    obtain ⟨_, hr⟩ := turns_openVertices (covers_open who.thread s.guards) ids mode s.store r
      store hs.store hs.guarded trivial hrun
    rw [hrun] at hstill htallied
    simp only [Session.openVertices, Session.perform, hrun]
    cases r with
    | error e => exact hstill
    | ok new =>
      have hnew : ∀ g ∈ new, g.hold = .reader := fun g hm =>
        LockTable.Tallied.reading htallied hr.1.accounts (hstill.readonly hup)
          (List.mem_append_left _ hm)
      exact hstill.trans (Session.locksOnly_keepAll (s := { s with store }) h _ names hnew)

/-- While the flag is up, an operation that leaves it up changes the locks only. -/
theorem locksOnly_after (hs : s.Sound .slots) (ht : s.store.locks.Tallied)
    (hup : s.store.locks.readonly = true) (who : Caller) (op : Operation) (hop : op.KeepsUp) :
    s.store.LocksOnly (op.after who s).store := by
  have hreading := reading_of_readonly hs ht hup
  cases op with
  | ask r => exact locksOnly_ask hs ht hup r hop
  | openVertex name id mode => exact locksOnly_openVertex hreading hs ht hup name id mode
  | openVertices names ids mode => exact locksOnly_openVertices hreading hs ht hup names ids mode
  | askHandle name r =>
    cases hg : s.handle? ⟨who.thread, name⟩ with
    | none =>
      simp only [after, Session.askHandle, hg, Option.map_none, Option.getD_none]
      exact .refl _
    | some g =>
      simp only [after, Session.askHandle, hg, Option.map_some, Option.getD_some]
      exact still_handleRequest (hreading _ g hg) r s.store hup
  | escalate name =>
    cases hg : s.handle? ⟨who.thread, name⟩ with
    | none =>
      simp only [after, Session.escalate, hg, Option.map_none, Option.getD_none]
      exact .refl _
    | some g =>
      have hrefused := escalate_of_readonly ht
        (hs.guarded.accounts.perm (Session.guards_perm_of_handle? hg)) hup
      simp only [after, Session.escalate, hg, Option.map_some, Option.getD_some,
        Session.perform, Action.escalate, run_ofFun, hrefused]
      exact .refl _
  | relax name =>
    cases hg : s.handle? ⟨who.thread, name⟩ with
    | none =>
      simp only [after, Session.relax, hg, Option.map_none, Option.getD_none]
      exact .refl _
    | some g =>
      have hstill := still_relax (hreading _ g hg) s.store hup
      cases hrun : (Action.relax g).run s.store with
      | mk r store =>
        rw [hrun] at hstill
        simp only [after, Session.relax, hg, Option.map_some, Option.getD_some,
          Session.perform, hrun]
        cases r with
        | error e => exact hstill
        | ok relaxed => cases relaxed <;> exact hstill
  | close name => exact (Session.locksOnly_close hreading _).1

/-- The session after operations, each by its own caller. -/
def afterAll (ops : List (Caller × Operation)) (s : Session) : Session :=
  ops.foldl (fun s p => p.2.after p.1 s) s

theorem locksOnly_afterAll (hs : s.Sound .slots) (ht : s.store.locks.Tallied)
    (hup : s.store.locks.readonly = true) {ops : List (Caller × Operation)}
    (hops : ∀ p ∈ ops, p.2.KeepsUp) :
    s.store.LocksOnly (afterAll ops s).store ∧ (afterAll ops s).Sound .slots ∧
      (afterAll ops s).store.locks.Tallied := by
  induction ops generalizing s with
  | nil => exact ⟨.refl _, hs, ht⟩
  | cons p rest ih =>
    have hstep := locksOnly_after hs ht hup p.1 p.2 (hops p List.mem_cons_self)
    obtain ⟨hrun, hs', ht'⟩ := ih (p.2.sound_after hs p.1) (p.2.tallied_after hs ht p.1)
      (hstep.readonly hup) fun p' hm => hops p' (List.mem_cons_of_mem p hm)
    exact ⟨hstep.trans hrun, hs', ht'⟩

end Operation

/-- The session `s'` shows the graph of `s`, and nothing of it is held writable. -/
structure Session.Frozen (s s' : Session) : Prop where
  graph : s'.store = { s.store with locks := s'.store.locks }
  readonly : s'.store.locks.readonly = true
  unwritten : ∀ c, (s'.store.locks.record c).mode ≠ .writable
  reading : s'.Reading

/-- A read-only graph is frozen until its flag is lowered. -/
theorem frozen_run {ok : Operation → Prop} {s : Session} (h : Reach ok s)
    (hup : s.store.locks.readonly = true) (ops : List (Caller × Operation))
    (hops : ∀ p ∈ ops, p.2.KeepsUp) : s.Frozen (Operation.afterAll ops s) := by
  obtain ⟨hrun, hs, ht⟩ := Operation.locksOnly_afterAll h.sound h.tallied hup hops
  have hup' := hrun.readonly hup
  exact ⟨hrun.graph, hup', ht.unwritten hup', Operation.reading_of_readonly hs ht hup'⟩

/-- A read-only graph with an arc, the terminal of which a thread reads. -/
def glazed : Session :=
  (Operation.ask .setReadonly).after ⟨⟨"m"⟩, 7⟩
    ((Operation.openVertex "h" "b" .readonly).after ⟨⟨"t"⟩, 6⟩
      ((Operation.ask (.connect
        { initial := "a", arc := { relationship := "r" }, terminals := .one "b" })).after
          ⟨⟨"m"⟩, 5⟩ (.new {} .new)))

theorem reach_glazed : Reach (fun _ => True) glazed := by
  have hempty : Reach (fun _ => True) (.new {} .new) := .start {} .new
  have hconnected := hempty.step ⟨⟨"m"⟩, 5⟩ (.ask (.connect
    { initial := "a", arc := { relationship := "r" }, terminals := .one "b" })) trivial
  have hopened := hconnected.step ⟨⟨"t"⟩, 6⟩ (.openVertex "h" "b" .readonly) trivial
  exact hopened.step ⟨⟨"m"⟩, 7⟩ (.ask .setReadonly) trivial

/-- Neither the open handle nor an expiration is a way around the flag. -/
theorem frozen_run_glazed :
    glazed.store.locks.readonly = true ∧
      glazed.Frozen (Operation.afterAll
        [(⟨⟨"t"⟩, 8⟩, .escalate "h"), (⟨⟨"t"⟩, 8⟩, .askHandle "h" (.setExpiration 9)),
          (⟨⟨"m"⟩, 9⟩, .ask (.runExpiration 9)), (⟨⟨"m"⟩, 9⟩, .ask (.delete "a")),
          (⟨⟨"t"⟩, 9⟩, .openVertex "h" "c" .write), (⟨⟨"t"⟩, 9⟩, .relax "h")] glazed) := by
  have hup : glazed.store.locks.readonly = true := by
    set_option maxRecDepth 10000 in
    cbv
  refine ⟨hup, frozen_run reach_glazed hup _ fun p hm => ?_⟩
  simp only [List.mem_cons, List.not_mem_nil, or_false] at hm
  rcases hm with rfl | rfl | rfl | rfl | rfl | rfl
  · exact trivial
  · exact trivial
  · exact rfl
  · exact rfl
  · exact trivial
  · exact trivial

end Arcbase
