import Arcbase.Proofs.Action.Marking
import Arcbase.Proofs.Session.Reach
import Mathlib
set_option autoImplicit false

/-!
# Changes through stale handles are lost

A handle is on a cell.  A thread that deletes a vertex while it has a handle on it takes the
cell out of the graph, and a vertex that is created later under the same identifier has a
cell of its own.  The handle stays open and takes changes all the same: they go to the old
cell (`changed_exact`), where no look-up finds them, and the schedule is told of the new
vertex.  While its cell is in the graph, what a handle changes is seen at once.
-/

namespace Arcbase

open Arcbase.Action Store

namespace HandleRequest

variable {α : Type}

/-- Whether a request is to change the vertex of its handle. -/
def isChange : HandleRequest α → Bool
  | view => false
  | _ => true

/-- What is to be seen of a vertex after a change. -/
def Shows : HandleRequest α → VertexInfo → Prop
  | view, _ => True
  | setProperty name value, info => info.properties.get? name = some value
  | removeProperty name, info => info.properties.get? name = none
  | setVector vector, info => info.vector = some vector
  | setExpiration time, info => info.expires = some time

/-- What a change makes of the data of a vertex. -/
def change (now : UInt32) : HandleRequest α → VertexData → VertexData
  | view, d => d
  | setProperty name value, d =>
    { d with properties := d.properties.insert name value, modified := now }
  | removeProperty name, d =>
    if (d.properties.get? name).isSome then
      { d with properties := d.properties.erase name, modified := now }
    else d
  | setVector vector, d => { d with vector := some vector, modified := now }
  | setExpiration time, d => { d with expires := some time }

/-- The schedule after a change of the vertex with an identifier. -/
def reschedule (id : String) : HandleRequest α → Schedule → Schedule
  | setExpiration time, schedule => schedule.set (.vertex id) time
  | _, schedule => schedule

end HandleRequest

/-- A request has changed the cell of its guard, and nothing else but the schedule. -/
structure Changed {α : Type} (r : HandleRequest α) (now : UInt32) (g : Guard) (s s' : Store) :
    Prop where
  writable : g.hold = .writer
  id : ∀ c, (s'.cell c).id = (s.cell c).id
  key : ∀ c, (s'.cell c).key = (s.cell c).key
  data : s'.data g.item.slot = r.change now (s.data g.item.slot)
  others : ∀ c, g.item.slot ≠ c → s'.data c = s.data c
  table : s'.table = s.table
  locks : s'.locks = s.locks
  labels : s'.labels = s.labels
  size : s'.size = s.size
  schedule : s'.schedule = r.reschedule g.item.label s.schedule

namespace Action

variable {α : Type} {r : HandleRequest α} {who : Caller} {g : Guard} {s s' : Store} {x : α}

/-- The cell of the guard is changed, and the schedule with it. -/
theorem changed_reschedule (hlt : g.item.slot < s.cells.size) (hw : g.isWritable = true)
    {now : UInt32} {f : VertexData → VertexData}
    (hf : f (s.data g.item.slot) = r.change now (s.data g.item.slot)) :
    Changed r now g s { s.modifyData g.item.slot f with
      schedule := r.reschedule g.item.label s.schedule } := by
  have hcell := cell_modifyData s g.item.slot f
  have hdata : ∀ c, (s.modifyData g.item.slot f).data c = _ := data_modifyData hlt f
  refine ⟨by simpa [Guard.isWritable] using hw, fun c => ?_, fun c => ?_, ?_, fun c hne => ?_, rfl,
    rfl, rfl, rfl, rfl⟩
  · refine (congrArg Cell.id (hcell c)).trans ?_
    split <;> rfl
  · refine (congrArg Cell.key (hcell c)).trans ?_
    split <;> rfl
  · exact ((hdata _).trans (if_pos rfl)).trans hf
  · exact (hdata c).trans (if_neg hne)

/-- A property that is not there is forgotten without a change. -/
theorem changed_removeProperty_absent (hw : g.isWritable = true) {name : String}
    (habsent : (s.data g.item.slot).properties.get? name = none) (now : UInt32) :
    Changed (.removeProperty name) now g s s := by
  refine ⟨by simpa [Guard.isWritable] using hw, fun _ => rfl, fun _ => rfl, ?_, fun _ _ => rfl, rfl,
    rfl, rfl, rfl, rfl⟩
  rw [HandleRequest.change, habsent]
  rfl

/-- A change that succeeds has been made at the cell of its guard, in the graph or not. -/
theorem changed_of_run (hlt : g.item.slot < s.cells.size) (hr : r.isChange = true)
    (hrun : (r.action who g).run s = (.ok x, s')) : Changed r who.now g s s' := by
  have hwritable : g.isWritable = true := by
    refine Classical.byContradiction fun hw => ?_
    cases r with
    | view => cases hr
    | _ =>
      simp only [HandleRequest.action, setProperty, removeProperty, setVector, setExpiration,
        requireWritable, if_neg hw, run_bind, fail, ofExcept, run_ofFun] at hrun
      cases hrun
  cases r with
  | view => cases hr
  | setProperty name value =>
    simp only [HandleRequest.action, setProperty, requireWritable, if_pos hwritable, run_bind,
      run_pure, update, run_ofFun] at hrun
    cases hrun
    exact changed_reschedule (r := .setProperty name value) hlt hwritable rfl
  | removeProperty name =>
    simp only [HandleRequest.action, removeProperty, requireWritable, if_pos hwritable, run_bind,
      run_pure, read, run_ofFun] at hrun
    cases hold : (s.data g.item.slot).properties.get? name with
    | none =>
      rw [hold] at hrun
      cases hrun
      exact changed_removeProperty_absent hwritable hold who.now
    | some old =>
      rw [hold] at hrun
      cases hrun
      have hf : ({ s.data g.item.slot with
          properties := (s.data g.item.slot).properties.erase name, modified := who.now } :
            VertexData) = (HandleRequest.removeProperty name).change who.now (s.data g.item.slot) :=
        (if_pos (by rw [hold]; rfl)).symm
      exact changed_reschedule (r := .removeProperty name)
        (f := fun d => { d with properties := d.properties.erase name, modified := who.now })
        hlt hwritable hf
  | setVector vector =>
    simp only [HandleRequest.action, setVector, requireWritable, if_pos hwritable, run_bind,
      run_pure] at hrun
    split at hrun
    · cases hrun
      exact changed_reschedule (r := .setVector vector) hlt hwritable rfl
    · cases hrun
  | setExpiration time =>
    simp only [HandleRequest.action, run_setExpiration, if_pos hwritable] at hrun
    cases hrun
    exact changed_reschedule (r := .setExpiration time) hlt hwritable rfl

/-- The attributes of a vertex are had if it is there and can be held. -/
theorem run_vertexInfo (who : Caller) (id : String) (s : Store) :
    ((vertexInfo who id).run s).1 =
      match s.lookup id with
      | none => .error (.key (.missing id))
      | some c =>
        match s.locks.acquire who.thread (s.lockItem c) .readonly with
        | .error e => .error (.access e)
        | .ok _ => .ok (s.info c) := by
  rw [vertexInfo, run_bind, run_find]
  cases s.lookup id with
  | none => rfl
  | some c =>
    simp only [holding, acquire, run_bind, run_ofFun]
    cases s.locks.acquire who.thread (s.lockItem c) .readonly <;> rfl

end Action

/-! ## What is seen afterwards -/

namespace HandleRequest

variable {α : Type} {r : HandleRequest α}

/-- A vertex that has been changed shows it. -/
theorem shows_of_change (hr : r.isChange = true) {now : UInt32} {d : VertexData}
    {info : VertexInfo} (hproperties : info.properties = (r.change now d).properties)
    (hvector : info.vector = (r.change now d).vector)
    (hexpires : info.expires = (r.change now d).expires) : r.Shows info := by
  cases r with
  | view => cases hr
  | setProperty name value =>
    rw [Shows, hproperties, change, PropertyMap.get?_insert, if_pos rfl]
  | removeProperty name =>
    rw [Shows, hproperties, change]
    split
    · rw [PropertyMap.get?_erase, if_pos rfl]
    next habsent => simpa using habsent
  | setVector vector => exact hvector
  | setExpiration time => exact hexpires

end HandleRequest

namespace Changed

variable {α : Type} {r : HandleRequest α} {now : UInt32} {g : Guard} {s s' : Store}

theorem lookup (h : Changed r now g s s') (id : String) : s'.lookup id = s.lookup id := by
  rw [Store.lookup, Store.lookup, lookupKey, lookupKey, h.table]
  exact congrArg (Option.filter · _) (funext fun c => by rw [h.id])

theorem info (h : Changed r now g s s') {c : CellId} (hne : g.item.slot ≠ c) :
    s'.info c = s.info c := by
  have hdata : (s'.cell c).data = (s.cell c).data := h.others c hne
  simp only [Store.info, h.id, h.key, hdata, h.labels]

theorem acquire (h : Changed r now g s s') (who : Caller) (c : CellId) (mode : LockMode) :
    s'.locks.acquire who.thread (s'.lockItem c) mode =
      s.locks.acquire who.thread (s.lockItem c) mode := by
  rw [h.locks, lockItem, lockItem, h.id, h.key]

end Changed

variable {ok : Operation → Prop} {s s' : Session} {who : Caller} {name : String} {α : Type}
  {r : HandleRequest α} {g : Guard} {x : α}

section Seen

variable {who' : Caller} {id : String} {info : VertexInfo}

theorem ask_info (s : Session) (who : Caller) (id : String) :
    (s.ask who (.info id)).1 = ((vertexInfo who id).run s.store).1 := rfl

/-- Whoever reads the vertex of the handle sees the change. -/
theorem Changed.shows (h : Changed r who.now g s.store s'.store) (hr : r.isChange = true)
    (hl : s.store.lookup id = some g.item.slot) (hinfo : (s'.ask who' (.info id)).1 = .ok info) :
    r.Shows info := by
  rw [ask_info, run_vertexInfo, h.lookup, hl] at hinfo
  dsimp only at hinfo
  split at hinfo
  · cases hinfo
  · cases hinfo
    exact HandleRequest.shows_of_change hr (congrArg VertexData.properties h.data)
      (congrArg VertexData.vector h.data) (congrArg VertexData.expires h.data)

/-- The thread of a writable handle may read its vertex as long as it has levels left. -/
theorem acquire_of_writer {G : List Guard} (hg : s.store.Guarded G) (hm : g ∈ G)
    (hw : g.hold = .writer) (howner : g.thread = who.thread)
    (hlevels : (Guard.onSlot g.item.slot G).length < s.store.locks.limit) :
    ∃ p, s.store.locks.acquire who.thread (s.store.lockItem g.item.slot) .readonly = .ok p := by
  have hopen := LockTable.open_of_writer hg.accounts hm hw
  refine (LockTable.acquire_readonly_iff hg.accounts).2 ⟨fun g' hg' _ => ?_, ?_⟩
  · obtain ⟨hm', hslot⟩ := Guard.mem_onSlot.1 hg'
    exact (hopen g' hm' hslot).2.trans howner
  · exact Nat.lt_of_le_of_lt List.countP_le_length hlevels

/-- Nobody sees the change at any other vertex. -/
theorem Changed.ask_info_eq (h : Changed r who.now g s.store s'.store)
    (hne : s.store.lookup id ≠ some g.item.slot) :
    (s'.ask who' (.info id)).1 = (s.ask who' (.info id)).1 := by
  rw [ask_info, ask_info, run_vertexInfo, run_vertexInfo, h.lookup]
  cases hl : s.store.lookup id with
  | none => rfl
  | some c =>
    have hslot : g.item.slot ≠ c := fun e => hne (e ▸ hl)
    dsimp only
    rw [h.acquire, h.info hslot]

end Seen

/-- A change through a handle that succeeds is made at the handle's own cell.  If that is
still in the graph it is the vertex of its identifier, and shows the change; if it has been
taken out nobody sees the change. -/
theorem changed_exact (h : Reach ok s) (hg : s.handle? ⟨who.thread, name⟩ = some g)
    (hr : r.isChange = true) (hrun : s.askHandle who name r = some (.ok x, s')) :
    Changed r who.now g s.store s'.store ∧
      (s.store.lookup g.item.label = some g.item.slot ↔
        (s.store.data g.item.slot).deleted = false) ∧
      ((s.store.data g.item.slot).deleted = false →
        (∀ who' info, (s'.ask who' (.info g.item.label)).1 = .ok info → r.Shows info) ∧
          ((Guard.onSlot g.item.slot s.guards).length < s.store.locks.limit →
            ∃ info, (s'.ask who (.info g.item.label)).1 = .ok info)) ∧
      ((s.store.data g.item.slot).deleted = true →
        ∀ who' id, (s'.ask who' (.info id)).1 = (s.ask who' (.info id)).1) := by
  have hs := h.sound
  have hm := Session.mem_guards_of_handle? hg
  obtain ⟨hlt, hitem⟩ := hs.guarded.item g hm
  have hlabel : g.item.label = (s.store.cell g.item.slot).id := congrArg LockItem.label hitem
  have hfound : s.store.lookup g.item.label = some g.item.slot ↔
      (s.store.data g.item.slot).deleted = false := by
    rw [hlabel]
    exact ⟨fun hl => (hs.store.placed.of_lookup hl).1.2,
      fun hd => hs.store.placed.lookup_of_live ⟨hlt, hd⟩⟩
  have hchanged : Changed r who.now g s.store s'.store := by
    simp only [Session.askHandle, hg, Option.map_some, Session.perform, Option.some.injEq,
      Prod.mk.injEq] at hrun
    obtain ⟨hok, rfl⟩ := hrun
    exact changed_of_run hlt hr (Prod.ext hok rfl)
  refine ⟨hchanged, hfound, fun hd => ⟨fun who' info => hchanged.shows hr (hfound.2 hd),
    fun hlevels => ?_⟩, fun hd who' id => hchanged.ask_info_eq fun hl => ?_⟩
  · obtain ⟨p, hp⟩ := acquire_of_writer hs.guarded hm hchanged.writable (hs.owner _ g hg) hlevels
    refine ⟨s'.store.info g.item.slot, ?_⟩
    rw [ask_info, run_vertexInfo, hchanged.lookup, hfound.2 hd]
    dsimp only
    rw [hchanged.acquire, hp]
  · rw [(hs.store.placed.of_lookup hl).1.2] at hd
    cases hd

/-- Who deletes and creates a vertex while it holds it. -/
def restless : Caller := ⟨⟨"m"⟩, 5⟩

/-- A vertex that its thread deleted and created again while it had a handle on it. -/
def replaced : Session :=
  (Operation.ask (.create "A" none)).after restless
    ((Operation.ask (.delete "A")).after restless
      ((Operation.openVertex "h" "A" .write).after restless
        ((Operation.ask (.create "A" none)).after restless (.new {} .new))))

theorem reach_replaced : Reach Operation.Live replaced :=
  have hempty : Reach Operation.Live (.new {} .new) := .start {} .new
  (((hempty.step restless (.ask (.create "A" none)) rfl).step restless
    (.openVertex "h" "A" .write) trivial).step restless (.ask (.delete "A")) rfl).step restless
      (.ask (.create "A" none)) rfl

/-- The guard of the old handle. -/
def staleGuard : Guard := ⟨⟨"m"⟩, ⟨0, (VertexKey.of "A").value, "A"⟩, .writer⟩

theorem handle_replaced : replaced.handle? ⟨restless.thread, "h"⟩ = some staleGuard := by
  set_option maxRecDepth 10000 in
  cbv

/-- An expiration that is set through the old handle is not seen at the new vertex. -/
theorem askHandle_replaced : ∃ s' info,
    replaced.askHandle restless "h" (.setExpiration 100) = some (.ok (), s') ∧
      (s'.ask restless (.info "A")).1 = .ok info ∧ info.expires = none := by
  have hrun : (replaced.askHandle restless "h" (.setExpiration 100)).map (fun p =>
      (p.1, (p.2.ask restless (.info "A")).1.map VertexInfo.expires)) =
        some (.ok (), .ok none) := by
    set_option maxRecDepth 10000 in
    cbv
  obtain ⟨⟨r, s'⟩, hrun, hr⟩ := Option.map_eq_some_iff.1 hrun
  obtain ⟨rfl, hinfo⟩ := Prod.mk.inj hr
  cases hask : (s'.ask restless (.info "A")).1 with
  | error e =>
    rw [hask] at hinfo
    cases hinfo
  | ok info =>
    rw [hask] at hinfo
    exact ⟨s', info, hrun, hask, Except.ok.inj hinfo⟩

/-- The old handle schedules an expiration of the new vertex, which nobody sees. -/
theorem changed_exact_replaced :
    replaced.store.lookup "A" = some 1 ∧ ∃ s',
      replaced.askHandle restless "h" (.setExpiration 100) = some (.ok (), s') ∧
        s'.store.schedule = replaced.store.schedule.set (.vertex "A") 100 ∧
          ∀ who' id, (s'.ask who' (.info id)).1 = (replaced.ask who' (.info id)).1 := by
  have hfound : replaced.store.lookup "A" = some 1 ∧
      (replaced.store.data 0).deleted = true := by
    set_option maxRecDepth 10000 in
    cbv
  obtain ⟨s', _, hrun, _⟩ := askHandle_replaced
  obtain ⟨hchanged, _, _, hlost⟩ := changed_exact reach_replaced handle_replaced rfl hrun
  exact ⟨hfound.1, s', hrun, hchanged.schedule, hlost hfound.2⟩

/-- A change through a handle need not show at the vertex of its identifier. -/
theorem not_shown_replaced :
    ¬ ∀ s : Session, Reach Operation.Live s → ∀ (who : Caller) (name : String) (g : Guard),
      s.handle? ⟨who.thread, name⟩ = some g → ∀ (r : HandleRequest Unit) (s' : Session),
        r.isChange = true → s.askHandle who name r = some (.ok (), s') →
          ∀ info, (s'.ask who (.info g.item.label)).1 = .ok info → r.Shows info := by
  intro hall
  obtain ⟨s', info, hrun, hinfo, hexpires⟩ := askHandle_replaced
  have hshows : info.expires = some 100 := hall replaced reach_replaced restless "h" staleGuard
    handle_replaced (.setExpiration 100) s' rfl hrun info hinfo
  exact nomatch hexpires.symm.trans hshows

end Arcbase
