import Arcbase.Proofs.Session.Balanced
import Arcbase.Proofs.Session.Composing
import Arcbase.Proofs.Session.Connecting
set_option autoImplicit false

/-!
# A connect to several vertices, one at a time

A connect to a list of vertices checks all of them before it writes toward any.  Once it has
succeeded, every connect of the same request toward one of them would (`Feasible`), and what one
of these writes stands in the way of none of the others (`Feasible.rest`).  So they may be made
one at a time in any order, and come to the same (`connect_divides`).

What is feasible is told by the slots, so that it does not name the codes and the cells, which
are not the same in the two runs.
-/

namespace Arcbase

open Arcbase.Action Store Guard

/-- The request toward one of its terminals alone. -/
def ConnectRequest.toward (r : ConnectRequest) (t : String) : ConnectRequest :=
  { r with terminals := .one t }

/-- Carries a request out toward one terminal after the other. -/
def Session.connectEach (s : Session) (who : Caller) (r : ConnectRequest) :
    List String → List (Except Error Nat) × Session
  | [] => ([], s)
  | t :: rest =>
    let (answer, s) := s.ask who (.connect (r.toward t))
    let (answers, s) := s.connectEach who r rest
    (answer :: answers, s)

variable {agree : Agreement} {who : Caller} {r : ConnectRequest} {u : ArcUpdate}
  {gate : Option Gate} {code : LabelCode} {G new : List Guard} {s s' s₁ s₂ : Store}
  {i c : CellId} {cells passing : List CellId} {locks : LockTable} {ids served : List String}
  {t id : String} {n : Nat} {answer : Nat × Option ArcValue} {me : Thread}

/-! ## What can be held -/

namespace Store

theorem canHold_iff (hg : s.Guarded G) : s.CanHold me c ↔
    s.locks.readonly = false ∧ Open G me c ∧ (onSlot c G).length < s.locks.limit := by
  refine and_congr_right fun hdown => ?_
  have hok : (s.locks.acquire me (s.lockItem c) .writable).isOk = true ↔
      ∃ p, s.locks.acquire me (s.lockItem c) .writable = .ok p := by
    cases s.locks.acquire me (s.lockItem c) .writable <;> simp [Except.isOk, Except.toBool]
  rw [hok, LockTable.acquire_writable_iff hg.accounts, hdown]
  exact ⟨fun h => ⟨h.1, h.2.1⟩, fun h => ⟨h.1, h.2, fun hup => absurd hup Bool.false_ne_true⟩⟩

/-- Under the same guards the same can be held. -/
theorem CanHold.of_sameSettings (h : s.CanHold me c) (hg : s.Guarded G) (hg' : s'.Guarded G)
    (hsettings : s.locks.SameSettings s'.locks) : s'.CanHold me c := by
  obtain ⟨hdown, hopen, hroom⟩ := (canHold_iff hg).1 h
  exact (canHold_iff hg').2
    ⟨hsettings.readonly.trans hdown, hopen, hsettings.limit.symm ▸ hroom⟩

/-- What nobody holds can be held. -/
theorem canHold_of_unguarded (hg : s.Guarded G) (hdown : s.locks.readonly = false)
    (hfree : ∀ g ∈ G, g.item.slot ≠ c) : s.CanHold me c := by
  obtain ⟨p, hp⟩ := acquire_unguarded hg hdown hfree me
  refine ⟨hdown, ?_⟩
  rw [hp]
  rfl

end Store

/-- The ends that a connect holds could be held before. -/
theorem Action.HeldEnds.canHold (held : HeldEnds agree who r gate code G s i cells new s₁ locks)
    (hg : s.Guarded G) (hdown : s.locks.readonly = false) (hc : c = i ∨ c ∈ cells) :
    s.CanHold who.thread c := by
  obtain ⟨g, hm, rfl⟩ := held.held_iff.2 hc
  have hgiven := held.given.each g hm
  have hmem : g ∈ new ++ G := List.mem_append_left G hm
  have hopen := LockTable.open_of_writer held.guarded.accounts hmem (hgiven.writing rfl)
  have hlength := LockTable.length_le_of_writer held.guarded.accounts hmem (hgiven.writing rfl)
  rw [hgiven.thread] at hopen
  refine (canHold_iff hg).2 ⟨hdown, hopen.mono fun g hm => List.mem_append_right new hm, ?_⟩
  -- the guard on the end is one more than those that were there
  have hown : 0 < (onSlot g.item.slot new).length :=
    List.length_pos_of_mem (mem_onSlot.2 ⟨hm, rfl⟩)
  rw [onSlot, List.filter_append, List.length_append] at hlength
  rw [onSlot] at hown ⊢
  have hlimit : locks.limit = s.locks.limit := held.settings.limit
  have hbound : _ ≤ locks.limit := hlength
  omega

/-! ## What is feasible -/

/-- Nothing stands against the arcs of a request toward a terminal. -/
structure ConnectRequest.Suits (r : ConnectRequest) (s : Store) (t : String) : Prop where
  sorted : ∀ slot a, slot.terminal = t → s.slot? slot = some a →
    a.forwardOnly = r.arc.forwardOnly
  fresh : r.arc.kind = .timeCreated → s.slot? (r.slot .timeCreated t) = none

/-- A request passes its checks toward each of some vertices, and nothing stands against it
toward those that its condition lets pass. -/
structure Store.Feasible (who : Caller) (r : ConnectRequest) (ids : List String) (s : Store) :
    Prop where
  relationship : ¬ (r.arc.relationship = "" ∨ r.arc.relationship = Probe.wildcard)
  probed : ∃ gate, r.condition.mapM s.gateOf = .ok gate
  room : ∃ code, (s.labels.encodeRelationship r.arc.relationship).1 = .ok code
  present : ∀ t ∈ ids, t ≠ r.initial ∧ ∃ c, s.lookup t = some c
  ends : ∀ t ∈ ids, Ends who r.initial t s
  suits : ∀ t ∈ ids, r.Lets s t → r.Suits s t

theorem Store.Feasible.of_subset {ids' : List String} (h : s.Feasible who r ids)
    (hsub : ids' ⊆ ids) : s.Feasible who r ids' :=
  ⟨h.relationship, h.probed, h.room, fun t ht => h.present t (hsub ht),
    fun t ht => h.ends t (hsub ht), fun t ht => h.suits t (hsub ht)⟩

/-! ### What a connect to a list has checked -/

/-- A list is taken if it is in order. -/
theorem Action.run_terminalIds_list_iff (hlist : r.terminals = .list ids) :
    (terminalIds r).run s = (.ok ids, s) ↔
      ids.Nodup ∧ ∀ t ∈ ids, t ≠ r.initial ∧ s.contains t = true := by
  have horderly : terminalFault? s r.initial [] ids = none ↔
      ids.Nodup ∧ ∀ t ∈ ids, t ≠ r.initial ∧ s.contains t = true := by
    simp [terminalFault?_eq_none_iff]
  rw [← horderly, terminalIds, hlist]
  dsimp only
  rw [run_read_bind, run_bind]
  cases terminalFault? s r.initial [] ids with
  | none => exact iff_of_true rfl rfl
  | some fault => exact iff_of_false (fun h => by cases h) (fun h => by cases h)

section Held

variable (held : HeldEnds agree who r gate code G s i cells new s₁ locks) (hs : s.Sound agree)
include held hs

theorem Action.HeldEnds.ends (hg : s.Guarded G) (hdown : s.locks.readonly = false)
    (hinitial : s.identifierFault? r.initial = none) (hnamed : s.identifierFault? t = none)
    (ht : t ∈ r.terminals.ids) : Ends who r.initial t s := by
  have hp₁ := held.located.enlarged.sound.placed
  obtain ⟨d, hd, hlookup⟩ := held.located.terminal ht
  have hfound : ∀ id ∈ [r.initial, t], ∃ d, (d = i ∨ d ∈ cells) ∧ s₁.lookup id = some d := by
    intro id hid
    rcases List.mem_cons.1 hid with rfl | hid
    · exact ⟨i, .inl rfl, held.located.initial⟩
    · exact ⟨d, .inr hd, List.mem_singleton.1 hid ▸ hlookup⟩
  refine ⟨hdown, ⟨hinitial, hnamed⟩, fun id hid c hc => ?_, fun hkey => ?_, fun id hid c hc => ?_⟩
  · obtain ⟨d, _, hd⟩ := hfound id hid
    exact held.owns hs hd c hc
  · rw [← hp₁.keyOf_of_lookup hlookup, ← hp₁.keyOf_of_lookup held.located.initial] at hkey
    obtain rfl := hp₁.eq_of_key (hp₁.of_lookup hlookup).1 held.located.live_initial hkey
    exact (hp₁.of_lookup hlookup).2.symm.trans (hp₁.of_lookup held.located.initial).2
  · obtain ⟨d, hend, hd⟩ := hfound id hid
    obtain rfl := Option.some.inj ((held.lookup_before hs hc).1.symm.trans hd)
    exact held.canHold hg hdown hend

/-- The slot of a request is between the cells that a connect holds. -/
theorem Action.HeldEnds.slot?_eq (hn : s.Named) {d : CellId} (hd : s₁.lookup t = some d)
    (kind : ArcKind) :
    s.slot? (r.slot kind t) = Store.arcAt? { s₁ with locks } i d code kind := by
  have hnames : Denotes { s₁ with locks } (r.slot kind t) i d code :=
    ⟨held.located.initial, hd, held.coded⟩
  exact (held.sameSlots hs hn _).1.symm.trans hnames.slot?

section Check

variable (hn : s.Named) {d : CellId} (hd : s₁.lookup t = some d)
include hn hd

theorem Action.HeldEnds.suits_of_arcFault?
    (hfault : Store.arcFault? { s₁ with locks } r.arc code i d = none) : r.Suits s t := by
  have hexact : (Store.arcFault? { s₁ with locks } r.arc code i d = _ ↔ _) ∧ (_ ↔ _) ∧ _ :=
    arcFault?_exact held.sound held.located.enlarged.arcs held.located.initial hd
  obtain ⟨hregular, hforward, _⟩ := hexact
  rw [hfault] at hregular hforward
  refine ⟨fun slot a hterminal ha => ?_, fun hkind => ?_⟩
  · have hm : (⟨.of slot.initial, .of slot.terminal, a⟩ : PlacedArc) ∈ s.arcs :=
      mem_arcs_of_slot? hs ha
    rw [hterminal] at hm
    cases hsort : r.arc.forwardOnly with
    | false =>
      cases ha' : a.forwardOnly with
      | false => rfl
      | true => exact nomatch hregular.2 ⟨hsort, _, hm, rfl, ha'⟩
    | true =>
      cases ha' : a.forwardOnly with
      | true => rfl
      | false => exact nomatch hforward.2 ⟨hsort, _, hm, rfl, ha'⟩
  · rw [held.slot?_eq hs hn hd]
    exact vacant_of_arcFault? hfault hkind

theorem Action.HeldEnds.arcFault?_of_suits (hsuits : r.Suits s t) :
    Store.arcFault? { s₁ with locks } r.arc code i d = none := by
  have hp₁ := held.located.enlarged.sound.placed
  have hnone : _ → _ → Store.arcFault? { s₁ with locks } r.arc code i d = none :=
    (arcFault?_exact held.sound held.located.enlarged.arcs held.located.initial hd).2.2
  refine hnone (fun p hp hterminal => ?_) fun hkind p hp hinitial hterminal hcreated hcode => ?_
  · have hp' : p ∈ s.arcs := hp
    obtain ⟨slot, ha, _, hslot⟩ := exists_slot?_of_mem_arcs hs hn hp'
    obtain ⟨_, c, _, hnames⟩ := denotes_of_slot? ha
    have hname := (held.owns hs hd).eq_of_key hnames.terminal (hslot.symm.trans hterminal)
    exact hsuits.sorted slot _ hname ha
  · -- the arc would be in the slot of the request
    have hp' : p ∈ s₁.arcs := (held.located.enlarged.arcs p).2 hp
    obtain ⟨i', d', hi', hd', hik, hdk, ha⟩ := exists_arcAt? held.located.enlarged.sound hp'
    obtain rfl := hp₁.eq_of_key hi' held.located.live_initial
      (hik.trans (hinitial.trans (hp₁.keyOf_of_lookup held.located.initial).symm))
    obtain rfl := hp₁.eq_of_key hd' (hp₁.of_lookup hd).1
      (hdk.trans (hterminal.trans (hp₁.keyOf_of_lookup hd).symm))
    have hvacant := (held.slot?_eq hs hn hd _).symm.trans (hsuits.fresh hkind)
    rw [hcode, hcreated] at ha
    exact nomatch hvacant.symm.trans ha

end Check

/-- A connect that passes suits the terminals that it lets pass. -/
theorem Action.HeldEnds.suits (hn : s.Named)
    (passes : Action.admitted { s₁ with locks } r.arc code gate i cells = .ok passing)
    (ht : t ∈ r.terminals.ids) (hlets : r.Lets s t) : r.Suits s t := by
  obtain ⟨d, _, hlookup⟩ := held.located.terminal ht
  have hpassing : d ∈ passing :=
    (held.mem_passing_iff passes hlookup).2 ((held.mem_admitted_iff hs hn).2 ⟨ht, hlets⟩)
  exact held.suits_of_arcFault? hs hn hlookup (arcFault?_of_admitted passes hpassing)

end Held

/-- Toward the vertices of a list a connect is feasible that succeeds. -/
theorem Action.feasible_of_run (hs : s.Sound agree) (hg : s.Guarded G) (hl : s.labels.Valid)
    (hn : s.Named) (hlist : r.terminals = .list ids) (haims : ids ≠ [])
    (hrun : (connectWith who r u).run s = (.ok answer, s')) :
    ids.Nodup ∧ s.Feasible who r ids := by
  have hids : r.terminals.ids = ids := by rw [hlist]; rfl
  rcases run_connectWith_cases hrun with ⟨_, _, herror, _⟩ | ⟨checked, _⟩
  · cases herror
  obtain ⟨hnodup, horderly⟩ := (run_terminalIds_list_iff hlist).1 (hids ▸ checked.terminals)
  have hwent := run_connectWith hs hg hl hrun
  cases hwent with
  | idle _ unaimed => exact absurd (hids.symm.trans unaimed) haims
  | written held passes _ =>
    refine ⟨hnodup, checked.relationship, ⟨_, held.probed⟩, ⟨_, congrArg Prod.fst held.encoded⟩,
      fun t ht => ?_, fun t ht => ?_, fun t ht hlets => ?_⟩
    · exact ⟨(horderly t ht).1, Option.isSome_iff_exists.1 (horderly t ht).2⟩
    · have ht' : t ∈ r.terminals.ids := hids.symm ▸ ht
      exact held.ends hs hg checked.writable checked.initial (checked.named t ht') ht'
    · exact held.suits hs hn passes (hids.symm ▸ ht) hlets

/-! ## One terminal -/

/-- Where a request is feasible, its connect toward one of the vertices comes to check that. -/
theorem Store.Feasible.ends_toward (h : s.Feasible who r ids) (hs : s.Sound agree)
    (hg : s.Guarded G) (u : ArcUpdate) (ht : t ∈ ids) :
    (∃ answer, ((connectWith who (r.toward t) u).run s).1 = .ok answer) ∨
      ∃ fault, ((connectWith who (r.toward t) u).run s).1 = .error (.arc fault) := by
  obtain ⟨gate, hgate⟩ := h.probed
  obtain ⟨code, hcode⟩ := h.room
  have hends := h.ends t ht
  let labelled : Store := { s with labels := (s.labels.encodeRelationship r.arc.relationship).2 }
  have hends' : Ends who (r.toward t).initial t labelled :=
    ⟨hends.writable, hends.named, hends.unclashing, hends.apart, hends.lockable⟩
  have hs₀ : labelled.Sound agree := hs.withLabels _
  have hchecked : Checked (r.toward t) s :=
    checked_one hends.writable hends.named h.relationship rfl
  obtain ⟨i, d, s₀, _, _, _, _, _, hheld⟩ :=
    run_connectAs_of_ends hs₀ ⟨hg.accounts, hg.item⟩ hends' rfl
  have hrun : ((connectWith who (r.toward t) u).run s).1 =
      ((connectHeld who (r.toward t) code u gate i [d]).run s₀).1 := by
    refine Eq.trans (congrArg Prod.fst ?_) hheld
    exact hchecked.run_connectAs (List.cons_ne_nil t []) hgate hcode
  rw [hrun, run_connectHeld]
  cases Action.admitted s₀ (r.toward t).arc code gate i [d] with
  | error fault => exact .inr ⟨fault, rfl⟩
  | ok passing => exact .inl ⟨_, rfl⟩

/-- Where a request is feasible, it is carried out toward any one of the vertices. -/
theorem Store.Feasible.run_toward (h : s.Feasible who r ids) (hs : s.Sound agree)
    (hg : s.Guarded G) (hl : s.labels.Valid) (hn : s.Named) (u : ArcUpdate) (ht : t ∈ ids) :
    ∃ answer, ((connectWith who (r.toward t) u).run s).1 = .ok answer := by
  refine (h.ends_toward hs hg u ht).resolve_right ?_
  rintro ⟨fault, hfault⟩
  cases hrun : (connectWith who (r.toward t) u).run s with
  | mk outcome s' =>
    rw [hrun] at hfault
    obtain rfl : outcome = .error (.arc fault) := hfault
    cases run_connectWith hs hg hl hrun with
    | withdrawn early => cases early
    | refused held refusal =>
      -- what is refused is that vertex, and nothing stands against it
      obtain ⟨t', d, hadmitted, hlookup, hfault⟩ := held.refuted refusal
      obtain ⟨hm, hlets⟩ := (held.mem_admitted_iff hs hn).1 hadmitted
      obtain rfl : t' = t := List.mem_singleton.1 hm
      have hsuits := h.suits t' ht hlets
      have hnone := held.arcFault?_of_suits hs hn hlookup ⟨hsuits.sorted, hsuits.fresh⟩
      cases hfault.symm.trans hnone

/-- Nothing that is told of a connect depends on the other terminals of its request. -/
theorem Served.of_toward (h : Served who (r.toward t) u G ids served n s s') :
    Served who r u G ids served n s s' := by
  obtain ⟨code, hencoded, hslots⟩ := h.written
  exact
    { distinct := h.distinct
      chosen := h.chosen
      written := ⟨code, hencoded, hslots.slot, hslots.inward, hslots.mirrored⟩
      count := h.count
      size := h.size
      scheduled := h.scheduled
      unscheduled := h.unscheduled
      initial := h.initial
      terminal := h.terminal
      kept := h.kept
      gone := h.gone
      came := h.came
      config := h.config }

/-- Whether a condition can be looked up does not depend on the labels. -/
theorem Store.gate_isOk {condition : Option ArcCondition} (h : condition.mapM s.gateOf = .ok gate)
    (s' : Store) : ∃ gate', condition.mapM s'.gateOf = .ok gate' := by
  cases condition with
  | none => exact ⟨none, rfl⟩
  | some condition =>
    simp only [Option.mapM, gateOf, filterOf] at h ⊢
    rcases ofProbe_cases s.labels s'.labels condition.probe with ⟨e, he, _⟩ | ⟨_, f, _, hf⟩
    · rw [he] at h
      cases h
    · rw [hf]
      exact ⟨_, rfl⟩

/-- Two ends can still be held if they are where they were, or have come to a place that was
free. -/
theorem Store.Ends.of_kept {initial : String} (h : Ends who initial t s) (hg : s.Guarded G)
    (hg' : s'.Guarded G) (hs' : s'.Sound agree) (hsettings : s.locks.SameSettings s'.locks)
    (hconfig : s'.config = s.config)
    (hthere : ∀ id ∈ [initial, t], ∃ c, s'.lookup id = some c ∧
      (s.lookup id = some c ∨ s.cells.size ≤ c)) : Ends who initial t s' := by
  have hdown : s'.locks.readonly = false := hsettings.readonly.trans h.writable
  have hfault : ∀ {id}, s.identifierFault? id = none → s'.identifierFault? id = none := by
    intro id hid
    rwa [identifierFault?, hconfig]
  refine ⟨hdown, ⟨hfault h.named.1, hfault h.named.2⟩, fun id hid c hkey => ?_, h.apart,
    fun id hid c hlookup => ?_⟩
  · obtain ⟨c', hlookup, _⟩ := hthere id hid
    obtain ⟨hkey', _⟩ := Option.filter_eq_some_iff.1 hlookup
    obtain rfl := Option.some.inj (hkey.symm.trans hkey')
    exact (hs'.placed.of_lookup hlookup).2
  · obtain ⟨c', hlookup', hplace⟩ := hthere id hid
    obtain rfl := Option.some.inj (hlookup'.symm.trans hlookup)
    rcases hplace with hold | hnew
    · exact (h.lockable id hid c' hold).of_sameSettings hg hg' hsettings
    · exact canHold_of_unguarded hg' hdown fun g hm =>
        Nat.ne_of_lt (Nat.lt_of_lt_of_le (hg.item g hm).1 hnew)

/-- A connect toward some vertices leaves it feasible toward the others. -/
theorem Store.Feasible.rest {rest : List String} (h : s.Feasible who r rest)
    (hserved : Served who r u G ids served n s s') (hl : s.labels.Valid) (hs' : s'.Sound agree)
    (hg : s.Guarded G) (hg' : s'.Guarded G) (hsettings : s.locks.SameSettings s'.locks)
    (hdisjoint : ∀ t ∈ rest, t ∉ ids) : s'.Feasible who r rest := by
  have hfound : ∀ t ∈ rest, ∃ c, s.lookup t = some c ∧ s'.lookup t = some c := by
    intro t ht
    obtain ⟨hne, c, hc⟩ := h.present t ht
    obtain ⟨hlookup, _⟩ := hserved.kept t hne (fun hm => hdisjoint t ht (hserved.mem_ids hm))
      fun hm => hdisjoint t ht hm.1
    exact ⟨c, hc, hlookup.trans hc⟩
  have hlets : ∀ t ∈ rest, r.Lets s' t → r.Lets s t := fun t ht =>
    (hserved.lets_iff (h.present t ht).1 (hdisjoint t ht)).1
  have hslot : ∀ slot, slot.terminal ∈ rest → s'.slot? slot = s.slot? slot := fun slot hm =>
    hserved.slot_other fun hc => hdisjoint _ hm (hserved.mem_ids hc.2.2)
  refine
    { relationship := h.relationship
      probed := ?_
      room := ?_
      present := fun t ht => ⟨(h.present t ht).1, (hfound t ht).imp fun _ hc => hc.2⟩
      ends := fun t ht => ?_
      suits := fun t ht hpass => ?_ }
  · obtain ⟨gate, hgate⟩ := h.probed
    exact gate_isOk hgate s'
  · obtain ⟨code, hencoded, _⟩ := hserved.written
    exact ⟨code, congrArg Prod.fst (Labels.encodeRelationship_again hl hencoded)⟩
  · refine (h.ends t ht).of_kept hg hg' hs' hsettings hserved.config fun id hid => ?_
    rcases List.mem_cons.1 hid with rfl | hid
    · obtain ⟨c, hc', hold | ⟨_, hnew⟩⟩ := hserved.came
      · exact ⟨c, hc', .inl hold⟩
      · exact ⟨c, hc', .inr hnew⟩
    · obtain rfl := List.mem_singleton.1 hid
      exact (hfound _ ht).imp fun _ hc => ⟨hc.2, .inl hc.1⟩
  · obtain ⟨hsorted, hfresh⟩ := h.suits t ht (hlets t ht hpass)
    refine ⟨fun slot a hterminal ha => ?_, fun hkind => (hslot _ ht).trans (hfresh hkind)⟩
    rw [hslot slot (hterminal ▸ ht)] at ha
    exact hsorted slot a hterminal ha

/-! ## One terminal after the other -/

section Sessions

variable {σ : Session}

/-- A request leaves the flag and the limit of the locks as they are. -/
theorem Arises.sameSettings_ask (h : Arises (fun _ => True) σ) (who : Caller) {α : Type}
    (r : Request α) (hr : r.isFlagging = false) :
    Arises (fun _ => True) (σ.ask who r).2 ∧
      σ.store.locks.SameSettings (σ.ask who r).2.store.locks := by
  have hbalance := balanced_request who r hr σ.guards σ.store _ _
    h.reach.sound.guarded.accounts h.reach.tallied rfl
  rw [left_const] at hbalance
  exact ⟨h.step who (.ask r) trivial, hbalance.returned.settings⟩

theorem ask_connect (hu : ArcUpdate.ofRequest r.arc = .ok u) : σ.ask who (.connect r) =
    (((connectWith who r u).run σ.store).1.map Prod.fst,
      { σ with store := ((connectWith who r u).run σ.store).2 }) := by
  have hrun : (connect who r).run σ.store = (((connectWith who r u).run σ.store).1.map Prod.fst,
      ((connectWith who r u).run σ.store).2) := by
    rw [← run_bind_pure]
    simp only [connect, run_bind, Action.ofExcept, run_ofFun, hu]
  rw [Session.ask, Request.action, Session.perform, hrun]

/-- Where a request is feasible, it is carried out toward one of the vertices. -/
theorem Store.Feasible.ask_toward (h : σ.store.Feasible who r ids) (hσ : Arises (fun _ => True) σ)
    (hu : ArcUpdate.ofRequest r.arc = .ok u) (ht : t ∈ ids) :
    ∃ n served, (σ.ask who (.connect (r.toward t))).1 = .ok n ∧
      Served who r u σ.guards [t] served n σ.store
        (σ.ask who (.connect (r.toward t))).2.store := by
  have hs := hσ.reach.sound
  have hn := hσ.lawful.named
  obtain ⟨hne, hpresent⟩ := h.present t ht
  obtain ⟨answer, hok⟩ := h.run_toward hs.store hs.guarded hσ.labels hn u ht
  cases hwith : (connectWith who (r.toward t) u).run σ.store with
  | mk outcome s' =>
    rw [hwith] at hok
    obtain rfl : outcome = .ok answer := hok
    have hrun := run_connectWith hs.store hs.guarded hσ.labels hwith
    obtain ⟨served, hserved⟩ := hrun.served hs.store hn (List.cons_ne_nil t [])
      (fun t' ht' => List.mem_singleton.1 ht' ▸ hpresent)
      fun hm => hne (List.mem_singleton.1 hm).symm
    have hu' : ArcUpdate.ofRequest (r.toward t).arc = .ok u := hu
    rw [ask_connect hu', hwith]
    exact ⟨answer.1, served, rfl, hserved.of_toward⟩

/-- Where a request is feasible, it is carried out toward one of the vertices after the other. -/
theorem Store.Feasible.connectEach (h : σ.store.Feasible who r ids)
    (hσ : Arises (fun _ => True) σ) (hu : ArcUpdate.ofRequest r.arc = .ok u) (haims : ids ≠ [])
    (hnodup : ids.Nodup) :
    ∃ (counts : List Nat) (served : List String),
      (σ.connectEach who r ids).1 = counts.map .ok ∧
        Arises (fun _ => True) (σ.connectEach who r ids).2 ∧
          Served who r u σ.guards ids served counts.sum σ.store
            (σ.connectEach who r ids).2.store := by
  induction ids generalizing σ with
  | nil => exact absurd rfl haims
  | cons t rest ih =>
    obtain ⟨hnew, hnodup⟩ := List.nodup_cons.1 hnodup
    obtain ⟨n, served, hok, hfirst⟩ := h.ask_toward hσ hu List.mem_cons_self
    obtain ⟨hσ', hsettings⟩ := hσ.sameSettings_ask who (.connect (r.toward t)) rfl
    have hguards : (σ.ask who (.connect (r.toward t))).2.guards = σ.guards := rfl
    have hcons : σ.connectEach who r (t :: rest) =
        (.ok n :: ((σ.ask who (.connect (r.toward t))).2.connectEach who r rest).1,
          ((σ.ask who (.connect (r.toward t))).2.connectEach who r rest).2) := by
      rw [Session.connectEach, ← hok]
    rw [hcons]
    generalize (σ.ask who (.connect (r.toward t))).2 = σ' at hfirst hσ' hsettings hguards ⊢
    by_cases hrest : rest = []
    · subst hrest
      exact ⟨[n], served, rfl, hσ', by simpa [Session.connectEach] using hfirst⟩
    · have hothers := (h.of_subset (List.subset_cons_self t rest)).rest hfirst hσ.labels
        hσ'.reach.sound.store hσ.reach.sound.guarded (hguards ▸ hσ'.reach.sound.guarded) hsettings
        fun t' hm hm' => hnew (List.mem_singleton.1 hm' ▸ hm)
      obtain ⟨counts, served', hanswers, harises, hlater⟩ := ih hothers hσ' hrest hnodup
      rw [hguards] at hlater
      refine ⟨n :: counts, served ++ served', by rw [hanswers]; rfl, harises, ?_⟩
      rw [List.sum_cons]
      refine hfirst.andThen hlater hσ.labels (fun t' hm => ?_) fun hm => ?_
      · exact List.mem_singleton.1 hm ▸ hnew
      · exact (h.present _ hm).1 rfl

/-- A connect to a list that succeeds was feasible, and has served it. -/
theorem served_of_list (h : Arises (fun _ => True) σ) (hlist : r.terminals = .list ids)
    (haims : ids ≠ []) (hok : (σ.ask who (.connect r)).1 = .ok n) :
    ∃ u served, ArcUpdate.ofRequest r.arc = .ok u ∧ ids.Nodup ∧ σ.store.Feasible who r ids ∧
      Served who r u σ.guards ids served n σ.store (σ.ask who (.connect r)).2.store := by
  have hs := h.reach.sound
  have hids : r.terminals.ids = ids := by rw [hlist]; rfl
  cases hrun : (connect who r).run σ.store with
  | mk outcome s' =>
    have hask : σ.ask who (.connect r) = (outcome, { σ with store := s' }) := by
      rw [Session.ask, Request.action, Session.perform, hrun]
    rw [hask] at hok ⊢
    rcases run_connect hrun with ⟨_, _, herror, _⟩ | ⟨u, answer, hu, hwith, hanswer⟩
    · cases hok.symm.trans herror
    · cases answer with
      | error e => cases hok.symm.trans hanswer
      | ok answer =>
        obtain rfl : n = answer.1 := Except.ok.inj (hok.symm.trans hanswer)
        obtain ⟨hnodup, hfeasible⟩ := feasible_of_run hs.store hs.guarded h.labels
          h.lawful.named hlist haims hwith
        have hwent := run_connectWith hs.store hs.guarded h.labels hwith
        obtain ⟨served, hserved⟩ := hwent.served hs.store h.lawful.named (hids.symm ▸ haims)
          (fun t ht => (hfeasible.present t (hids ▸ ht)).2)
          fun hm => (hfeasible.present _ (hids ▸ hm)).1 rfl
        exact ⟨u, served, hu, hnodup, hfeasible, hids ▸ hserved⟩

/-- A connect to a list of vertices that succeeds may be made toward one vertex at a time, in any
order: all of these succeed, their counts add up to its count, and the graph comes out the
same. -/
theorem connect_divides (h : Arises (fun _ => True) σ) (hlist : r.terminals = .list ids)
    (haims : ids ≠ []) (hok : (σ.ask who (.connect r)).1 = .ok n) {ids' : List String}
    (hperm : ids'.Perm ids) :
    ∃ counts : List Nat, (σ.connectEach who r ids').1 = counts.map .ok ∧ counts.sum = n ∧
      (σ.ask who (.connect r)).2.store.Coincides (σ.connectEach who r ids').2.store := by
  obtain ⟨u, served, hu, hnodup, hfeasible, hserved⟩ := served_of_list h hlist haims hok
  have haims' : ids' ≠ [] := fun he => haims (List.Perm.nil_eq (he ▸ hperm)).symm
  obtain ⟨counts, served', hanswers, heach, hserved'⟩ :=
    (hfeasible.of_subset hperm.subset).connectEach h hu haims' (hperm.nodup_iff.2 hnodup)
  have hall := (h.sameSettings_ask who (.connect r) rfl).1
  obtain ⟨hcount, hsame⟩ := hserved.coincide hserved' hperm.symm hall.reach.sound.store
    heach.reach.sound.store hall.lawful.named heach.lawful.named
  exact ⟨counts, hanswers, hcount.symm, hsame⟩

end Sessions

/-- A graph in which `a` knows `b`, and does not know `c`. -/
def company : Session :=
  (Operation.ask (.create "c" none)).after ⟨⟨"m"⟩, 11⟩ acquainted

theorem arises_company : Arises (fun _ => True) company :=
  arises_acquainted.step ⟨⟨"m"⟩, 11⟩ (.ask (.create "c" none)) trivial

/-- Of `b` and `c` those whom `a` knows have been seen now. -/
def meetAll : ConnectRequest := { meet with terminals := .list ["b", "c"] }

theorem run_meetAll : ((connectWith ⟨⟨"m"⟩, 12⟩ meetAll (.set none)).run company.store).1 =
    .ok (1, some (.unsigned 12)) := by
  obtain ⟨hup, hinitial, hnamed, hthere⟩ : company.store.locks.readonly = false ∧
      company.store.identifierFault? meetAll.initial = none ∧
      (company.store.identifierFault? "b" = none ∧ company.store.identifierFault? "c" = none) ∧
      company.store.contains "b" = true ∧ company.store.contains "c" = true := by
    set_option maxRecDepth 10000 in
    cbv
  have hlist : meetAll.terminals = .list ["b", "c"] := rfl
  have hids : (terminalIds meetAll).run company.store = (.ok ["b", "c"], company.store) :=
    (run_terminalIds_list_iff hlist).2 ⟨by simp, by simpa [meetAll, meet] using hthere⟩
  have hchecked : Checked meetAll company.store :=
    ⟨hup, hinitial, by decide, hids, by simpa [meetAll, Terminals.ids] using hnamed⟩
  rw [hchecked.run (by decide)]
  set_option maxRecDepth 10000 in
  cbv

/-- Toward `c` nothing is written, whether it comes first or last. -/
theorem connect_divides_company :
    (company.ask ⟨⟨"m"⟩, 12⟩ (.connect meetAll)).1 = .ok 1 ∧
      ∃ counts : List Nat,
        (company.connectEach ⟨⟨"m"⟩, 12⟩ meetAll ["c", "b"]).1 = counts.map .ok ∧
          counts.sum = 1 ∧
            (company.ask ⟨⟨"m"⟩, 12⟩ (.connect meetAll)).2.store.Coincides
              (company.connectEach ⟨⟨"m"⟩, 12⟩ meetAll ["c", "b"]).2.store := by
  have hok : (company.ask ⟨⟨"m"⟩, 12⟩ (.connect meetAll)).1 = .ok 1 := by
    have hu : ArcUpdate.ofRequest meetAll.arc = .ok (.set none) := rfl
    rw [ask_connect hu, run_meetAll]
    rfl
  exact ⟨hok, connect_divides arises_company rfl (by decide) hok (.swap "b" "c" [])⟩

end Arcbase
