import Arcbase.Proofs.Action.Timely
set_option autoImplicit false

/-!
# The deletions of a pass

A pass tries its items one after the other, and so it deletes vertices one after the other.
The list of these deletions with their outcomes (`deletions`) tells when a vertex expires
after the pass: when it did, if no deletion got hold of it (`expires_tryAll`), and at the
clock of the pass, if one ended incomplete (`expires_tryAll_of_incomplete`).
-/

namespace Arcbase.Action

open Store

variable {agree : Agreement} {G : List Guard} {who : Caller} {s s' : Store} {id : String}
  {c : CellId} {items : List Expiring}

/-- A deletion that did not get hold of its vertex. -/
def Refused (r : Except Error Nat) : Prop := ∃ cause, r = .error (.access cause)

/-- A deletion that met other vertices in its way. -/
def Incomplete (r : Except Error Nat) : Prop :=
  ∃ removed remaining cause, r = .error (.arc (.incomplete removed remaining cause))

/-- The vertex that an item deletes, with the outcome. -/
def deletion (who : Caller) (s : Store) : Expiring → List (CellId × Except Error Nat)
  | .vertex id => (s.lookup id).toList.map fun c => (c, ((delete who id).run s).1)
  | .arc .. => []

/-- The vertices that items delete one after the other, each with the outcome. -/
def deletions (who : Caller) : List Expiring → Store → List (CellId × Except Error Nat)
  | [], _ => []
  | item :: rest, s => deletion who s item ++ deletions who rest ((expire who item).run s).2

theorem mem_deletion_iff {item : Expiring} {r : Except Error Nat} :
    (c, r) ∈ deletion who s item ↔
      ∃ id, item = .vertex id ∧ s.lookup id = some c ∧ r = ((delete who id).run s).1 := by
  cases item with
  | vertex id =>
    simp only [deletion, List.mem_map, Option.mem_toList, Prod.mk.injEq, Expiring.vertex.injEq,
      exists_eq_left']
    constructor
    · rintro ⟨c, hfound, rfl, rfl⟩
      exact ⟨hfound, rfl⟩
    · rintro ⟨hfound, rfl⟩
      exact ⟨c, hfound, rfl, rfl⟩
  | arc => simp [deletion]

theorem swept_item (who : Caller) (hs : s.Sound agree) (hg : s.Guarded G) (item : Expiring) :
    Swept (fun _ => True) (fun _ => True) s ((expire who item).run s).2 :=
  swept_expire hs hg rfl (fun _ _ _ => trivial) fun _ _ _ _ _ _ _ => trivial

/-- A vertex that is deleted was there from the beginning, as an item. -/
theorem mem_of_mem_deletions (hs : s.Sound agree) (hg : s.Guarded G) {r : Except Error Nat}
    (h : (c, r) ∈ deletions who items s) : s.Live c ∧ .vertex (s.cell c).id ∈ items := by
  induction items generalizing s with
  | nil => exact absurd h List.not_mem_nil
  | cons item rest ih =>
    rcases List.mem_append.1 h with hown | hrest
    · obtain ⟨id, rfl, hfound, _⟩ := mem_deletion_iff.1 hown
      obtain ⟨hc, rfl⟩ := hs.placed.of_lookup hfound
      exact ⟨hc, List.mem_cons_self⟩
    · obtain ⟨hs₁, hg₁⟩ := sound_item who hs hg item
      obtain ⟨hc, hm⟩ := ih hs₁ hg₁ hrest
      have hswept := swept_item who hs hg item
      have hc₀ := hswept.live c hc
      exact ⟨hc₀, List.mem_cons_of_mem _ (hswept.cells.id c hc₀.1 ▸ hm)⟩

/-! ## When vertices expire after deletions -/

theorem expires_leftOver {c' : CellId} (hne : c' ≠ c) (s : Store) :
    ((leftOver who id c' s).data c).expires = (s.data c).expires := by
  have hdata := data_modifyData_ite s c' (fun d => { d with expires := some who.now }) c
  rw [if_neg fun e => hne e.1] at hdata
  exact congrArg VertexData.expires hdata

/-- A deletion changes when its own vertex expires, and no other one. -/
theorem DeleteRun.expires {r : Except Error Nat} (h : DeleteRun who id G s r s')
    (hc : s.lookup id = some c → Refused r) : (s'.data c).expires = (s.data c).expires := by
  have hwalked : ∀ {c' : CellId} {g : Guard} {locks : LockTable} {rm : Removal} {s₁ : Store},
      Walked who (g :: G) c' .all .any none rm (stripped who c' s locks) s₁ →
        ((s₁.less rm.removed).data c).expires = (s.data c).expires := by
    intro c' g locks rm s₁ walk
    have hlocks : s.SameDates { s with locks } := sameDates_of_cells rfl rfl rfl
    have hstripped : Store.SameDates { s with locks } (stripped who c' s locks) :=
      sameDates_modifyData _ c' fun _ => rfl
    exact ((hlocks.trans hstripped).trans walk.dates).expires c
  cases h with
  | refused => rfl
  | missing => rfl
  | @incomplete c' g locks rm s₁ cause held walk blocked =>
    have hne : c' ≠ c := fun e => by
      obtain ⟨_, hr⟩ := hc (e ▸ held.found)
      cases hr
    rw [(sameDates_drop _ g).expires, expires_leftOver hne, hwalked walk]
  | @complete c' g locks rm s₁ held walk free =>
    have hne : c' ≠ c := fun e => by
      obtain ⟨_, hr⟩ := hc (e ▸ held.found)
      cases hr
    rw [(sameDates_drop _ g).expires, ← hwalked walk, takenOut]
    split
    · rw [data_modifyData_ite, if_neg fun e => hne e.1]
    · exact (sameDates_remove _ c').expires c

/-- A deletion that ends incomplete has its vertex expire at once. -/
theorem DeleteRun.expires_of_incomplete {r : Except Error Nat} (h : DeleteRun who id G s r s')
    (hs : s.Sound agree) (hg : s.Guarded G) (hfound : s.lookup id = some c)
    (hr : Incomplete r) : (s'.data c).expires = some who.now := by
  obtain ⟨removed, remaining, cause, rfl⟩ := hr
  cases h with
  | @incomplete c' g locks rm s₁ cause held walk blocked =>
    obtain rfl : c' = c := Option.some.inj (held.found.symm.trans hfound)
    obtain ⟨_, hc₂, _, _⟩ := live_walked hs hg held walk
    rw [(sameDates_drop _ g).expires]
    have hdata := data_modifyData_ite (s₁.less rm.removed) c'
      (fun d => { d with expires := some who.now }) c'
    rw [if_pos ⟨rfl, hc₂.1⟩] at hdata
    exact congrArg VertexData.expires hdata

theorem store_expire_vertex (who : Caller) (id : String) (s : Store) :
    ((expire who (.vertex id)).run s).2 = ((delete who id).run s).2 := by
  rw [expire, run_bind]
  cases (delete who id).run s with
  | mk r s₁ => cases r <;> rfl

theorem run_item_vertex (hs : s.Sound agree) (hg : s.Guarded G) (id : String) :
    DeleteRun who id G s ((delete who id).run s).1 ((expire who (.vertex id)).run s).2 := by
  rw [store_expire_vertex]
  exact run_delete hs hg rfl

theorem expires_item (hs : s.Sound agree) (hg : s.Guarded G) {item : Expiring}
    (h : ∀ r, (c, r) ∈ deletion who s item → Refused r) :
    (((expire who item).run s).2.data c).expires = (s.data c).expires := by
  cases item with
  | vertex id =>
    refine (run_item_vertex hs hg id).expires fun hfound => h _ ?_
    exact mem_deletion_iff.2 ⟨id, rfl, hfound, rfl⟩
  | arc initial relationship terminal =>
    cases hrun : (expire who (.arc initial relationship terminal)).run s with
    | mk outcome s₁ =>
      cases run_expire hs hg hrun with
      | arc run => exact run.sameDates.expires c

/-- A vertex that no deletion gets hold of expires when it did. -/
theorem expires_tryAll (hs : s.Sound agree) (hg : s.Guarded G)
    (h : ∀ r, (c, r) ∈ deletions who items s → Refused r) :
    ((tryAll who items s).data c).expires = (s.data c).expires := by
  induction items generalizing s with
  | nil => rfl
  | cons item rest ih =>
    obtain ⟨hs₁, hg₁⟩ := sound_item who hs hg item
    rw [tryAll, List.foldl_cons]
    refine (ih hs₁ hg₁ fun r hm => h r (List.mem_append_right _ hm)).trans ?_
    exact expires_item hs hg fun r hm => h r (List.mem_append_left _ hm)

/-- Of different items one deletes the vertex; if that ends incomplete, the vertex expires at
once. -/
theorem expires_tryAll_of_incomplete (hs : s.Sound agree) (hg : s.Guarded G)
    (hdistinct : items.Nodup) {r : Except Error Nat} (hm : (c, r) ∈ deletions who items s)
    (hr : Incomplete r) : ((tryAll who items s).data c).expires = some who.now := by
  induction items generalizing s with
  | nil => exact absurd hm List.not_mem_nil
  | cons item rest ih =>
    obtain ⟨hs₁, hg₁⟩ := sound_item who hs hg item
    obtain ⟨hfresh, hrest⟩ := List.nodup_cons.1 hdistinct
    rw [tryAll, List.foldl_cons]
    rcases List.mem_append.1 hm with hown | hlater
    · obtain ⟨id, rfl, hfound, rfl⟩ := mem_deletion_iff.1 hown
      have hexpires := (run_item_vertex hs hg id).expires_of_incomplete hs hg hfound hr
      refine (expires_tryAll hs₁ hg₁ fun r hagain => ?_).trans hexpires
      -- none of the other items is this vertex
      obtain ⟨hc, hitem⟩ := mem_of_mem_deletions hs₁ hg₁ hagain
      have hswept := swept_item who hs hg (.vertex id)
      obtain ⟨hc₀, rfl⟩ := hs.placed.of_lookup hfound
      rw [hswept.cells.id c hc₀.1] at hitem
      exact absurd hitem hfresh
    · exact ih hs₁ hg₁ hrest hlater

end Arcbase.Action
