import Arcbase.Proofs.Action.Retrying
import Arcbase.Proofs.Scene.Arcs
import Arcbase.Proofs.Session.Disconnecting
set_option autoImplicit false

/-!
# How a connect comes to check its terminal

A connect to one vertex registers its missing ends, which have no arcs yet, holds both and
asks its condition.  If all of that goes well it comes down to the check of the terminal
(`run_connect_of_reaches`).
-/

namespace Arcbase

open Arcbase.Action Store

namespace Store

/-- Whether a condition lets a connect pass, told by the arcs of the graph. -/
def lets (s : Store) (gate : Gate) (initial terminal : String) : Bool :=
  let among (i t : VertexKey) :=
    s.arcs.any fun p => p.initial == i && p.terminal == t && gate.filter.test p.arc
  ((gate.direction.includesOut && among (.of initial) (.of terminal)) ||
    (gate.direction.includesIn && among (.of terminal) (.of initial))) != gate.negate

/-- What both ends of a connect have to be. -/
structure Ends (who : Caller) (initial b : String) (s : Store) : Prop where
  writable : s.locks.readonly = false
  named : s.identifierFault? initial = none ∧ s.identifierFault? b = none
  /-- No other vertex has the key of one of the ends. -/
  unclashing : ∀ id ∈ [initial, b], ∀ c, s.lookupKey (.of id) = some c → (s.cell c).id = id
  apart : VertexKey.of b = .of initial → b = initial
  lockable : ∀ id ∈ [initial, b], ∀ c, s.lookup id = some c → s.CanHold who.thread c

/-- A connect to one vertex passes the checks of its arguments, its ends can be held, and
its condition admits it. -/
structure Reaches (who : Caller) (s : Store) (r : ConnectRequest) (b : String) : Prop
    extends Ends who r.initial b s where
  single : r.terminals = .one b
  value : ∃ u, ArcUpdate.ofRequest r.arc = .ok u
  relationship : ¬ (r.arc.relationship = "" ∨ r.arc.relationship = Probe.wildcard)
  room : ∃ code, (s.labels.encodeRelationship r.arc.relationship).1 = .ok code
  admitted : ∃ gate, r.condition.mapM s.gateOf = .ok gate ∧ ∀ g ∈ gate, s.lets g r.initial b = true

variable {agree : Agreement} {s s' : Store} {G : List Guard} {who : Caller} {me : Thread}
  {c i t : CellId} {id : String}

/-! ## More vertices -/

/-- A vertex without arcs adds no arcs. -/
theorem mem_arcs_addCell (hs : s.Sound agree) {new : Cell} (fresh : s.lookupKey new.key = none)
    (keyed : new.key = .of new.id) (kept : new.data.deleted = false) (bare : Bare new.data)
    {p : PlacedArc} : p ∈ (s.addCell new).arcs ↔ p ∈ s.arcs := by
  have hs' := (Step.add (W := fun _ => True) fresh keyed kept bare).sound hs
  have hextends := extends_addCell s new
  refine ⟨arcs_subset_of_out hs.placed hs'.placed hextends (fun c hc => ?_) p, fun hp => ?_⟩
  · rcases (live_addCell_iff kept).1 hc with rfl | hc
    · exact .inl ((congrArg VertexData.out (data_addCell_new ..).1).trans bare.out)
    · exact .inr ⟨hc, congrArg VertexData.out (data_addCell_of_live hc).1⟩
  · obtain ⟨c, hc, hk, ha⟩ := (mem_arcs_iff hs.placed).1 hp
    refine (mem_arcs_iff hs'.placed).2 ⟨c, (live_addCell_iff kept).2 (.inr hc), ?_, ?_⟩
    · exact (hextends.key c hc.1).trans hk
    · rw [(data_addCell_of_live hc).1]
      exact ha

/-- The same arcs in a graph with more vertices, and the same locks. -/
structure Enlarged (agree : Agreement) (G : List Guard) (s s' : Store) : Prop where
  sound : s'.Sound agree
  guarded : s'.Guarded G
  arcs : ∀ p, p ∈ s'.arcs ↔ p ∈ s.arcs
  extends_ : s.Extends s'
  live : ∀ c, s.Live c → s'.Live c
  locks : s'.locks = s.locks
  same : s'.labels = s.labels ∧ s'.config = s.config

theorem Enlarged.refl (hs : s.Sound agree) (hg : s.Guarded G) : Enlarged agree G s s :=
  ⟨hs, hg, fun _ => .rfl, .refl s, fun _ => id, rfl, rfl, rfl⟩

theorem Enlarged.trans {s'' : Store} (h : Enlarged agree G s s') (h' : Enlarged agree G s' s'') :
    Enlarged agree G s s'' :=
  ⟨h'.sound, h'.guarded, fun p => (h'.arcs p).trans (h.arcs p), h.extends_.trans h'.extends_,
    fun c hc => h'.live c (h.live c hc), h'.locks.trans h.locks, h'.same.1.trans h.same.1,
    h'.same.2.trans h.same.2⟩

theorem Enlarged.lookup (h : Enlarged agree G s s') (hp : s.Placed) (hc : s.lookup id = some c) :
    s'.lookup id = some c := by
  obtain ⟨hlive, rfl⟩ := hp.of_lookup hc
  rw [← h.extends_.id c hlive.1]
  exact h.sound.placed.lookup_of_live (h.live c hlive)

theorem Enlarged.canHold (h : Enlarged agree G s s') (hc : c < s.cells.size)
    (hhold : s.CanHold me c) : s'.CanHold me c := by
  rw [CanHold, h.locks, h.extends_.lockItem hc]
  exact hhold

variable (who) in
/-- A named vertex can be had, as it is or as a new one. -/
theorem run_findOrAdd_of_named (hs : s.Sound agree) (hg : s.Guarded G)
    (hup : s.locks.readonly = false) (hfault : s.identifierFault? id = none)
    (hnamed : ∀ c, s.lookupKey (.of id) = some c → (s.cell c).id = id)
    (hlock : ∀ c, s.lookup id = some c → s.CanHold me c) (manifestation : Manifestation) :
    ∃ c isNew s', (findOrAdd who id manifestation).run s = (.ok (c, isNew), s') ∧
      s'.lookup id = some c ∧ Enlarged agree G s s' ∧ s'.CanHold me c ∧
        ∀ c, s'.Live c → s.Live c ∨ (s'.cell c).id = id := by
  cases hfound : s.lookupKey (.of id) with
  | some c =>
    have hid := hnamed c hfound
    have hlookup : s.lookup id = some c := by
      rw [Store.lookup, hfound]
      simp [hid]
    refine ⟨c, false, s, ?_, hlookup, .refl hs hg, hlock c hlookup, fun _ => .inl⟩
    simp only [findOrAdd, run_bind, Action.read, run_ofFun, hfault, refuse, run_pure, hfound, hid,
      if_true]
  | none =>
    have hbare : Bare (VertexData.new manifestation who.now) := ⟨rfl, rfl, rfl⟩
    have hs' : (s.addCell { id, key := .of id, data := .new manifestation who.now }).Sound agree :=
      (Step.add (W := fun _ => True) hfound rfl rfl hbare).sound hs
    have hg' :=
      Action.Guarded.of_addCell hg { id, key := .of id, data := .new manifestation who.now }
    have hlive : (s.addCell { id, key := .of id, data := .new manifestation who.now }).Live
        s.cells.size := (live_addCell_iff rfl).2 (.inl rfl)
    refine ⟨s.cells.size, true, s.addCell { id, key := .of id, data := .new manifestation who.now },
      ?_, ?_, ⟨hs', hg', fun p => mem_arcs_addCell hs hfound rfl rfl hbare, extends_addCell s _,
        fun c hc => (live_addCell_iff rfl).2 (.inr hc), rfl, rfl, rfl⟩, ⟨hup, ?_⟩, fun c hc => ?_⟩
    · simp only [findOrAdd, run_bind, Action.read, run_ofFun, hfault, refuse, run_pure, hfound,
        update]
    · have hlookup := hs'.placed.lookup_of_live hlive
      rwa [cell_addCell, if_pos rfl] at hlookup
    · obtain ⟨p, hp⟩ := acquire_unguarded hg' hup
        (fun g hm => Nat.ne_of_lt (hg.item g hm).1) me
      rw [hp]
      rfl
    · refine ((live_addCell_iff rfl).1 hc).symm.imp_right fun he => ?_
      rw [cell_addCell, if_pos he]

/-! ## Conditions -/

theorem hasOutArc_eq (hs : s.Sound agree) (hi : s.Live i) (filter : ArcFilter) :
    s.hasOutArc i t filter = s.arcs.any fun p =>
      p.initial == s.keyOf i && p.terminal == s.keyOf t && filter.test p.arc := by
  rw [Bool.eq_iff_iff, hasOutArc, List.any_eq_true, List.any_eq_true]
  simp only [Bool.and_eq_true, beq_iff_eq]
  constructor
  · rintro ⟨a, ha, htest⟩
    exact ⟨⟨s.keyOf i, s.keyOf t, a⟩, (mem_arcs_iff hs.placed).2 ⟨i, hi, rfl, ha⟩, ⟨rfl, rfl⟩,
      htest⟩
  · rintro ⟨p, hp, ⟨hinitial, hterminal⟩, htest⟩
    obtain ⟨i', hi', hk, ha⟩ := (mem_arcs_iff hs.placed).1 hp
    obtain rfl := hs.placed.eq_of_key hi' hi (hk.trans hinitial)
    rw [hterminal] at ha
    exact ⟨p.arc, ha, htest⟩

theorem gatePasses_eq_lets (hs : s'.Sound agree) (harcs : ∀ p, p ∈ s'.arcs ↔ p ∈ s.arcs)
    {initial terminal : String} (hi : s'.lookup initial = some i)
    (ht : s'.lookup terminal = some t) (gate : Gate) :
    s'.gatePasses gate i t = s.lets gate initial terminal := by
  have hany : ∀ f : PlacedArc → Bool, s'.arcs.any f = s.arcs.any f := by
    intro f
    rw [Bool.eq_iff_iff, List.any_eq_true, List.any_eq_true]
    simp only [harcs]
  have hlive := (hs.placed.of_lookup hi).1
  have hlive' := (hs.placed.of_lookup ht).1
  simp only [gatePasses, lets, hasOutArc_eq hs hlive, hasOutArc_eq hs hlive', hany,
    hs.placed.keyOf_of_lookup hi, hs.placed.keyOf_of_lookup ht]

end Store

/-- The identifiers of terminals. -/
def Terminals.ids : Terminals → List String
  | one t => [t]
  | list ids => ids

/-- A connect passes the checks of its arguments, its condition apart. -/
structure Action.Checked (r : ConnectRequest) (s : Store) : Prop where
  writable : s.locks.readonly = false
  initial : s.identifierFault? r.initial = none
  relationship : ¬ (r.arc.relationship = "" ∨ r.arc.relationship = Probe.wildcard)
  terminals : (terminalIds r).run s = (.ok r.terminals.ids, s)
  named : ∀ t ∈ r.terminals.ids, s.identifierFault? t = none

namespace Action

variable {agree : Agreement} {s : Store} {G : List Guard} {who : Caller} {r : ConnectRequest}
  {b : String} {i t : CellId} {code : LabelCode} {u : ArcUpdate} {gate : Option Gate}

/-! ## Running a connect -/

/-- Different vertices can be had together if each can. -/
theorem run_acquireMany_of_isOk (hs : s.Sound agree) (hg : s.Guarded G) {cells : List CellId}
    {mode : LockMode} (hnodup : cells.Nodup) (hlive : AllLive cells s)
    (hok : ∀ c ∈ cells, (s.locks.acquire who.thread (s.lockItem c) mode).isOk = true) :
    ∃ guards locks, (acquireMany who cells mode).run s = (.ok guards, { s with locks }) := by
  have hslots : ((cells.map s.lockItem).map LockItem.slot).Nodup := by
    rw [List.map_map]
    exact hnodup.map fun c c' he => he
  have hordinals : ((cells.map s.lockItem).map LockItem.ordinal).Nodup := by
    rw [List.map_map]
    exact hnodup.map_on fun c hc c' hc' he =>
      hs.placed.eq_of_key (hlive c hc) (hlive c' hc') (congrArg VertexKey.mk he)
  have hitems : ∀ item ∈ cells.map s.lockItem,
      (s.locks.acquire who.thread item mode).isOk = true := by
    intro item hm
    obtain ⟨c, hc, rfl⟩ := List.mem_map.1 hm
    exact hok c hc
  obtain ⟨guards, locks, hrun⟩ := LockTable.acquireMany_isOk hg.accounts hslots hordinals hitems
  refine ⟨guards, locks, ?_⟩
  simp only [acquireMany, run_ofFun, hrun]

/-- Both ends of a connect can be had together if each can. -/
theorem run_acquireMany_of_canHold (hs : s.Sound agree) (hg : s.Guarded G) (hi : s.Live i)
    (ht : s.Live t) (hholdi : s.CanHold who.thread i) (hholdt : s.CanHold who.thread t) :
    ∃ guards locks, (acquireMany who (i :: [t].filter (· ≠ i)) .writable).run s =
      (.ok guards, { s with locks }) := by
  have hcells : ∀ c ∈ i :: [t].filter (· ≠ i), c = i ∨ c = t := by
    intro c hc
    simp only [List.mem_cons, List.mem_filter, List.not_mem_nil, or_false] at hc
    exact hc.imp id And.left
  refine run_acquireMany_of_isOk hs hg ?_ (fun c hc => ?_) fun c hc => ?_
  · by_cases he : t = i
    · simp [he]
    · simp [he, Ne.symm he]
  · exact (hcells c hc).elim (fun e => e ▸ hi) fun e => e ▸ ht
  · exact (hcells c hc).elim (fun e => e ▸ hholdi.2) fun e => e ▸ hholdt.2

/-- A connect that holds its ends checks the terminal that its condition lets pass. -/
theorem run_connectHeld_of_passes (hpass : ∀ g ∈ gate, s.gatePasses g i t = true) :
    (∀ fault, s.arcFault? r.arc code i t = some fault →
        ((connectHeld who r code u gate i [t]).run s).1 = .error (.arc fault)) ∧
      (s.arcFault? r.arc code i t = none →
        ∃ n, ((connectHeld who r code u gate i [t]).run s).1 = .ok n) := by
  have hpassing : ([t].filter fun t => gate.all fun g => s.gatePasses g i t) = [t] := by
    cases gate with
    | none => rfl
    | some g => simp [hpass g rfl]
  constructor
  · intro fault hfault
    have hadmitted : admitted s r.arc code gate i [t] = .error fault := by
      simp [admitted, hpassing, hfault]
    simp [connectHeld, run_bind, Action.read, run_ofFun, Action.ofExcept, hadmitted,
      Except.mapError]
  · intro hfault
    have hadmitted : admitted s r.arc code gate i [t] = .ok [t] := by
      simp [admitted, hpassing, hfault]
    simp only [connectHeld, run_bind, Action.read, run_ofFun, Action.ofExcept, id, hadmitted,
      Except.mapError, update]
    exact ⟨_, rfl⟩

/-- The terminal of a connect is found or added, or it is the initial itself. -/
theorem run_terminalCells_of_named {initial : String} (hs : s.Sound agree) (hg : s.Guarded G)
    (hup : s.locks.readonly = false) (hi : s.lookup initial = some i)
    (hholdi : s.CanHold who.thread i) (hfault : s.identifierFault? b = none)
    (hnamed : b ≠ initial → ∀ c, s.lookupKey (.of b) = some c → (s.cell c).id = b)
    (hlock : b ≠ initial → ∀ c, s.lookup b = some c → s.CanHold who.thread c) :
    ∃ t added s', (terminalCells who initial i (.one b)).run s = (.ok ([t], added), s') ∧
      s'.lookup b = some t ∧ Enlarged agree G s s' ∧ s'.CanHold who.thread t := by
  by_cases he : b = initial
  · subst he
    refine ⟨i, [], s, ?_, hi, .refl hs hg, hholdi⟩
    simp only [terminalCells, if_true, run_pure]
  · obtain ⟨t, isNew, s', hrun, hlookup, hlarge, hhold, _⟩ :=
      run_findOrAdd_of_named who hs hg hup hfault (hnamed he) (hlock he) .virtual
    refine ⟨t, if isNew then [t] else [], s', ?_, hlookup, hlarge, hhold⟩
    simp only [terminalCells, if_neg he, run_bind, hrun]
    rfl

/-- A connect whose ends can be had comes down to what it does once it holds them. -/
theorem run_connectAs_of_ends (hs : s.Sound agree) (hg : s.Guarded G)
    (h : Ends who r.initial b s) (hone : r.terminals = .one b) :
    ∃ i t s', s'.Sound agree ∧ (∀ p, p ∈ s'.arcs ↔ p ∈ s.arcs) ∧ s'.labels = s.labels ∧
      s'.lookup r.initial = some i ∧ s'.lookup b = some t ∧
        ((connectAs who r code u gate).run s).1 =
          ((connectHeld who r code u gate i [t]).run s').1 := by
  obtain ⟨i, isNew, s₁, hrun₁, hi₁, hlarge₁, hholdi₁, hnew₁⟩ :=
    run_findOrAdd_of_named who hs hg h.writable h.named.1
      (h.unclashing _ List.mem_cons_self) (h.lockable _ List.mem_cons_self) .real
  have hb : b ∈ [r.initial, b] := List.mem_cons_of_mem _ (List.mem_singleton_self b)
  -- what is found under the terminal's key was there before
  have hbefore : b ≠ r.initial → ∀ c, s₁.lookupKey (.of b) = some c → s.lookup b = some c := by
    intro hne c hc
    have hlive := hlarge₁.sound.placed.live_of_lookup hc
    rcases hnew₁ c hlive with hold | hid
    · have hkey := hlarge₁.sound.placed.key_of_lookup hc
      rw [hlarge₁.extends_.key c hold.1] at hkey
      have hid := h.unclashing b hb c ((hs.placed.lookup _ c).2 ⟨hold, hkey⟩)
      exact hid ▸ hs.placed.lookup_of_live hold
    · have hkey := hlarge₁.sound.placed.key_of_lookup hc
      rw [hlarge₁.sound.placed.keyed c hlive.1, hid] at hkey
      exact absurd (h.apart hkey.symm) hne
  have hup₁ : s₁.locks.readonly = false := hlarge₁.locks ▸ h.writable
  have hfault₁ : s₁.identifierFault? b = none := by
    rw [identifierFault?, hlarge₁.same.2]
    exact h.named.2
  obtain ⟨t, added, s₂, hrun₂, ht₂, hlarge₂, hholdt₂⟩ :=
    run_terminalCells_of_named hlarge₁.sound hlarge₁.guarded hup₁ hi₁ hholdi₁ hfault₁
      (fun hne c hc => (hlarge₁.sound.placed.of_lookup
        (hlarge₁.lookup hs.placed (hbefore hne c hc))).2)
      fun hne c hc => by
        have hc' := hbefore hne c (Option.filter_eq_some_iff.1 hc).1
        exact hlarge₁.canHold (hs.placed.of_lookup hc').1.1 (h.lockable b hb c hc')
  have hi₂ := hlarge₂.lookup hlarge₁.sound.placed hi₁
  have hp₂ := hlarge₂.sound.placed
  obtain ⟨guards, locks, hrun₃⟩ := run_acquireMany_of_canHold hlarge₂.sound hlarge₂.guarded
    (hp₂.of_lookup hi₂).1 (hp₂.of_lookup ht₂).1
    (hlarge₂.canHold (hlarge₁.sound.placed.of_lookup hi₁).1.1 hholdi₁) hholdt₂
  have hlarge := hlarge₁.trans hlarge₂
  refine ⟨i, t, { s₂ with locks }, hlarge.sound.withLocks locks, hlarge.arcs, hlarge.same.1, hi₂,
    ht₂, ?_⟩
  simp only [connectAs, run_bind, hrun₁, hone, hrun₂, attempt, run_ofFun, hrun₃, ensuring]

/-- A connect to one vertex has nothing else to check than its names. -/
theorem checked_one (hup : s.locks.readonly = false)
    (hnamed : s.identifierFault? r.initial = none ∧ s.identifierFault? b = none)
    (hproper : ¬ (r.arc.relationship = "" ∨ r.arc.relationship = Probe.wildcard))
    (hone : r.terminals = .one b) : Checked r s := by
  have hids : r.terminals.ids = [b] := by rw [hone]; rfl
  refine ⟨hup, hnamed.1, hproper, ?_, fun t ht => ?_⟩
  · rw [terminalIds, hone]
    rfl
  · rw [hids] at ht
    exact List.mem_singleton.1 ht ▸ hnamed.2

/-- A connect that passes its checks goes on with its condition and its relationship. -/
theorem Checked.run (h : Checked r s) (haims : r.terminals.ids ≠ []) :
    (connectWith who r u).run s = (do
      let gate ← Action.ofExcept (← Action.read fun s => r.condition.mapM s.gateOf)
      connectAs who r (← encodeRelationship r.arc.relationship) u gate).run s := by
  have hempty : r.terminals.ids.isEmpty = false := by simpa using haims
  simp only [connectWith, run_bind, run_checkWritable, h.writable, Action.read, run_ofFun,
    h.initial, refuse, run_pure, if_neg h.relationship, Action.ofExcept, Bool.false_eq_true,
    if_false]
  cases r.condition.mapM s.gateOf with
  | error e => rfl
  | ok gate =>
    simp only [run_bind, h.terminals, hempty, Bool.false_eq_true, if_false, run_ofFun,
      List.findSome?_eq_none_iff.2 h.named, run_pure]

theorem Checked.run_connectAs (h : Checked r s) (haims : r.terminals.ids ≠ [])
    (hgate : r.condition.mapM s.gateOf = .ok gate)
    (hcode : (s.labels.encodeRelationship r.arc.relationship).1 = .ok code) :
    (connectWith who r u).run s = (connectAs who r code u gate).run
      { s with labels := (s.labels.encodeRelationship r.arc.relationship).2 } := by
  rw [h.run haims]
  simp only [run_bind, Action.read, run_ofFun, Action.ofExcept, hgate, encodeRelationship, hcode]

/-- A connect that passes its checks, has its ends and is admitted fails if something stands
against its terminal, and succeeds if nothing does. -/
theorem run_connect_of_reaches (hs : s.Sound agree) (hg : s.Guarded G) (hl : s.labels.Valid)
    (h : s.Reaches who r b) :
    ∃ i t code, ∃ s' : Store, s'.Sound agree ∧ (∀ p, p ∈ s'.arcs ↔ p ∈ s.arcs) ∧
      s.labels.Grows s'.labels ∧ s'.labels.relationships.decode? code = some r.arc.relationship ∧
        s'.lookup r.initial = some i ∧ s'.lookup b = some t ∧
          (∀ fault, s'.arcFault? r.arc code i t = some fault →
            ((connect who r).run s).1 = .error (.arc fault)) ∧
          (s'.arcFault? r.arc code i t = none → ∃ n, ((connect who r).run s).1 = .ok n) := by
  obtain ⟨u, hu⟩ := h.value
  obtain ⟨gate, hgate, hlets⟩ := h.admitted
  obtain ⟨code, hcode⟩ := h.room
  let labelled : Store := { s with labels := (s.labels.encodeRelationship r.arc.relationship).2 }
  have hs₀ : labelled.Sound agree := hs.withLabels _
  have hends : Ends who r.initial b labelled :=
    ⟨h.writable, h.named, h.unclashing, h.apart, h.lockable⟩
  obtain ⟨i, t, s', hs', harcs, hlabels, hi, ht, hheld⟩ := run_connectAs_of_ends
    (u := u) hs₀ ⟨hg.accounts, hg.item⟩ hends h.single
  have hrun : ((connect who r).run s).1 =
      ((connectAs who r code u gate).run labelled).1.map Prod.fst := by
    have hchecked : Checked r s := checked_one h.writable h.named h.relationship h.single
    have haims : r.terminals.ids ≠ [] := by simp [h.single, Terminals.ids]
    simp only [connect, run_bind, Action.ofExcept, run_ofFun, hu,
      hchecked.run_connectAs haims hgate hcode]
    cases has : (connectAs who r code u gate).run labelled with
    | mk x s'' => cases x <;> rfl
  have hpass : ∀ g ∈ gate, s'.gatePasses g i t = true := fun g hg =>
    (gatePasses_eq_lets hs' harcs hi ht g).trans (hlets g hg)
  obtain ⟨hfail, hok⟩ := run_connectHeld_of_passes (r := r) (u := u) hpass
  refine ⟨i, t, code, s', hs', harcs, ?_, ?_, hi, ht, fun fault hfault => ?_, fun hfault => ?_⟩
  · rw [hlabels]
    exact .relationship .refl _
  · rw [hlabels]
    exact hl.decode_relationship hcode
  · rw [hrun, hheld, hfail fault hfault]
    rfl
  · obtain ⟨n, hn⟩ := hok hfault
    exact ⟨n.1, by rw [hrun, hheld, hn]; rfl⟩

end Action

end Arcbase
