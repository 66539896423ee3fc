import Arcbase.Proofs.Arc.Counter
import Arcbase.Proofs.Session.Dividing
import Arcbase.Proofs.Session.Roundtrip
set_option autoImplicit false

/-!
# Counting over and over

A count adds to a counter in floating point.  Whatever is added to it one time after the other,
the counter is always the integer that comes of adding and moving into the range of counters
(`tallies`): that is what every count answers, what is then in the slot of the counter, and what
is read of it from either end (`counts_are_exact`).

What a count makes of its counter depends on nothing but what was in the slot (`Tally`), as a
count is a connect toward one terminal without a condition (`ConnectRun.tally`).  Reading may be
refused while others hold the vertex; the thread that counted has just held both ends, so that
it is never refused (`CanHold.canRead`, `Arises.count_shows`).
-/

namespace Arcbase

open Arcbase.Action Store Guard

/-! ## Vocabulary -/

/-- The integers that a counter comes to, with one for what is left out. -/
def tallies (n : Int) : List (Option Int) → List Int
  | [] => []
  | delta :: rest =>
    let sum := ArcKind.clampCount (n + delta.getD 1)
    sum :: tallies sum rest

/-- The slot of a counter. -/
def SlotName.counter (initial relationship terminal : String) : SlotName :=
  ⟨initial, relationship, .counter, terminal⟩

/-- A count as it went: who made it, what it answered, and what it left. -/
structure CountStep where
  who : Caller
  answer : Except Error UInt32
  after : Session

/-- Counts over and over. -/
def Session.countEach (s : Session) (initial relationship terminal : String) :
    List (Caller × Option Int) → List CountStep
  | [] => []
  | (who, delta) :: rest =>
    let (answer, s) := s.ask who (.count initial relationship terminal delta)
    ⟨who, answer, s⟩ :: s.countEach initial relationship terminal rest

/-- A thread reads a value from a vertex at any time, and so does whoever can be given access to
that vertex; nothing else is refused. -/
structure Session.Reads (s : Session) (me : Thread) (anchor : String) (p : Probe)
    (neighbor : String) (v : ArcValue) : Prop where
  own : ∀ now, (s.ask ⟨me, now⟩ (.arcValue anchor p neighbor)).1 = .ok (some v)
  others : ∀ reader, (s.ask reader (.arcValue anchor p neighbor)).1 = .ok (some v) ∨
    (∃ cause, (s.ask reader (.arcValue anchor p neighbor)).1 = .error (.access cause)) ∧
      ∀ c, s.store.lookup anchor = some c → ¬ s.store.CanRead s.guards reader.thread [] c

/-- The probe of one kind of a relationship. -/
def Probe.ofKind (relationship : String) (kind : ArcKind) (direction : Direction) : Probe :=
  { Probe.along relationship direction with kind := some kind }

/-- What a count answered is in the slot of its counter, on both sides, and is read from either
end. -/
structure CountStep.Shows (step : CountStep) (initial relationship terminal : String)
    (v : UInt32) : Prop where
  answer : step.answer = .ok v
  stored : (step.after.store.slot? (.counter initial relationship terminal)).map (·.value) =
    some (.unsigned v)
  mirrored : step.after.store.inwardSlot? (.counter initial relationship terminal) =
    step.after.store.slot? (.counter initial relationship terminal)
  outward : step.after.Reads step.who.thread initial (.ofKind relationship .counter .out) terminal
    (.unsigned v)
  inward : step.after.Reads step.who.thread terminal (.ofKind relationship .counter .inward) initial
    (.unsigned v)

variable {agree : Agreement} {who : Caller} {r : ConnectRequest} {u : ArcUpdate} {G : List Guard}
  {s s' : Store} {c : CellId} {code : LabelCode} {t : String} {answer : Nat × Option ArcValue}
  {n : SlotName} {a : StoredArc} {initial relationship terminal : String} {kind : ArcKind}
  {p : Probe} {f : ArcFilter}

/-! ## Reading an arc from either end -/

namespace Store

section Reading

variable (hproper : ¬ (n.relationship = "" ∨ n.relationship = Probe.wildcard))
include hproper

theorem ofKind_relationship (kind : ArcKind) (direction : Direction) :
    (Probe.ofKind n.relationship kind direction).relationship = some n.relationship :=
  if_neg (not_or.1 hproper).2

theorem filterOf_ofKind (s : Store) (kind : ArcKind) (direction : Direction) :
    ∃ f, s.filterOf (.ofKind n.relationship kind direction) = .ok f := by
  have hvalue : (Probe.ofKind n.relationship kind direction).value.fault? = none := rfl
  have hlabel := ofKind_relationship hproper kind direction
  generalize Probe.ofKind n.relationship kind direction = p at hvalue hlabel ⊢
  unfold filterOf ArcFilter.ofProbe
  rw [hvalue, hlabel]
  dsimp only
  split
  next he => cases he
  next he => exact absurd (.inl (Option.some.inj he)) hproper
  next => split <;> exact ⟨_, rfl⟩

/-- Of the arcs toward a neighbor a filter of a relationship and a kind finds the one of the
slot first. -/
theorem head?_of_get? {x : ArcIndex} (hx : x.Valid) {direction : Direction} {n' : VertexKey}
    (hf : s.filterOf (.ofKind n.relationship n.kind direction) = .ok f)
    (hcode : s.labels.relationships.lookup? n.relationship = some code)
    (ha : x.get? n' code n.kind = some a) :
    ((x.arcsTo n').filter f.test).head? = some a := by
  obtain ⟨hm, hrelationship, hkind⟩ := ArcIndex.get?_slot ha
  have hlabel := ofKind_relationship hproper n.kind direction
  refine (ArcIndex.head?_filter hx hf hlabel rfl).2 ⟨ArcIndex.mem_entries_iff.2 hm, ?_⟩
  rw [Probe.selects, hlabel, Option.all_some, hcode, hrelationship, beq_self_eq_true]
  have hkinds : (n.kind == a.kind) = true := beq_iff_eq.2 hkind.symm
  simp only [Bool.true_and, Probe.ofKind, Option.all_some, hkinds]
  rfl

/-- The arc of a slot is read from its initial. -/
theorem valueOf_out (hs : s.Sound agree) (ha : s.slot? n = some a) :
    s.valueOf n.initial (.ofKind n.relationship n.kind .out) n.terminal = .ok (some a.value) := by
  obtain ⟨i, t, code, hnames⟩ := denotes_of_slot? ha
  obtain ⟨f, hf⟩ := filterOf_ofKind hproper s n.kind .out
  have hvalid := (hs.paired.valid i (hs.placed.of_lookup hnames.initial).1).1
  rw [hnames.slot?, arcAt?] at ha
  have hbetween : (s.data i).arcsBetween (s.keyOf t) f .out =
      ((s.data i).out.arcsTo (s.keyOf t)).filter f.test :=
    congrArg (List.filter f.test) (List.append_nil _)
  have hhead := head?_of_get? hproper hvalid hf hnames.code ha
  simp only [valueOf, found, hnames.initial, hnames.terminal, hf, Option.elim_some]
  exact congrArg Except.ok (congrArg (Option.map (·.value)) (hbetween ▸ hhead))

/-- The regular arc of a slot is read from its terminal. -/
theorem valueOf_inward (hs : s.Sound agree) (ha : s.inwardSlot? n = some a) :
    s.valueOf n.terminal (.ofKind n.relationship n.kind .inward) n.initial =
      .ok (some a.value) := by
  obtain ⟨i, t, code, hnames⟩ := denotes_of_inwardSlot? ha
  obtain ⟨f, hf⟩ := filterOf_ofKind hproper s n.kind .inward
  have hvalid := (hs.paired.valid t (hs.placed.of_lookup hnames.terminal).1).2
  rw [hnames.inwardSlot?, inwardAt?] at ha
  have hhead := head?_of_get? hproper hvalid hf hnames.code ha
  simp only [valueOf, found, hnames.initial, hnames.terminal, hf, Option.elim_some]
  exact congrArg Except.ok (congrArg (Option.map (·.value)) hhead)

end Reading

/-- A thread that can hold a vertex can read it. -/
theorem CanHold.canRead (h : s.CanHold who.thread c) (hg : s.Guarded G) :
    s.CanRead G who.thread [] c := by
  obtain ⟨_, hopen, hroom⟩ := (canHold_iff hg).1 h
  refine ⟨fun g hm _ => (hopen g (mem_onSlot.1 hm).1 (mem_onSlot.1 hm).2).2, ?_⟩
  exact (List.countP_le_length.trans_lt hroom : depth who.thread (onSlot c G) < s.locks.limit)

end Store

namespace Action

/-- A value is read, unless access to the vertex is refused. -/
theorem answers_valueOf_unless {anchor neighbor : String} (hc : s.lookup anchor = some c) :
    Answers s G (arcValue who anchor p neighbor) fun x =>
      x = s.valueOf anchor p neighbor ∨
        (∃ cause, x = .error (.access cause)) ∧ ¬ s.CanRead G who.thread [] c := by
  have hfound : s.found anchor = .ok c := by rw [found, hc]; rfl
  refine answers_bind (M := (· = .ok (s.filterOf p))) (answers_read fun _ => rfl)
    (fun _ he => by cases he) fun filter hfilter => ?_
  obtain rfl := Except.ok.inj hfilter
  refine answers_bind (M := (· = s.filterOf p)) (answers_ofExcept rfl)
    (fun e he => .inl (by rw [valueOf, ← he]; rfl)) fun f hf => ?_
  refine answers_bind (M := (· = .ok c)) (answers_find hc) (fun _ he => by cases he)
    fun c' hc' => ?_
  obtain rfl : c = c' := (Except.ok.inj hc').symm
  refine answers_holding_unless (fun t e hset hacc hrefused => .inr ⟨⟨e, rfl⟩, fun hcan => ?_⟩)
    fun g _ _ => ?_
  · have hread : ∃ p, t.acquire who.thread (s.lockItem c) .readonly = .ok p :=
      (LockTable.acquire_readonly_iff hacc).2 ⟨hcan.1, hset.limit.symm ▸ hcan.2⟩
    rw [hrefused] at hread
    obtain ⟨_, hread⟩ := hread
    cases hread
  · have hvalue : s.valueOf anchor p neighbor = .ok ((s.lookup neighbor).bind fun t =>
        ((s.data c).arcsBetween (s.keyOf t) f p.direction).head?.map (·.value)) := by
      rw [valueOf, ← hf, hfound]
      cases s.lookup neighbor <;> rfl
    refine answers_bind (M := (· = .ok (s.lookup neighbor))) (answers_read fun _ => rfl)
      (fun _ he => by cases he) fun found hfound => ?_
    obtain rfl := Except.ok.inj hfound
    rw [hvalue]
    cases s.lookup neighbor with
    | none => exact answers_pure (.inl rfl)
    | some t => exact answers_read_store fun _ => answers_pure (.inl rfl)

end Action

theorem Session.reads_of_valueOf {s : Session} (hs : s.Sound agree) {me : Thread}
    {anchor neighbor : String} {v : ArcValue} (hc : s.store.lookup anchor = some c)
    (hcan : s.store.CanRead s.guards me [] c)
    (hvalue : s.store.valueOf anchor p neighbor = .ok (some v)) :
    s.Reads me anchor p neighbor v := by
  have htold : ∀ reader, (s.ask reader (.arcValue anchor p neighbor)).1 = .ok (some v) ∨
      (∃ cause, (s.ask reader (.arcValue anchor p neighbor)).1 = .error (.access cause)) ∧
        ¬ s.store.CanRead s.guards reader.thread [] c := by
    intro reader
    rw [← hvalue]
    exact told_of_answers hs (.arcValue anchor p neighbor) (answers_valueOf_unless hc)
  refine ⟨fun now => (htold ⟨me, now⟩).resolve_right fun h => h.2 hcan, fun reader => ?_⟩
  refine (htold reader).imp_right fun h => ⟨h.1, fun c' hc' => ?_⟩
  exact Option.some.inj (hc.symm.trans hc') ▸ h.2

/-! ## One count -/

/-- A connect toward one terminal answers with what it has written. -/
theorem Action.ConnectRun.value_of_one (h : ConnectRun agree who r u G s (.ok answer) s')
    (hs : s.Sound agree) (hn : s.Named) (hone : r.terminals = .one t)
    (hfree : r.condition = none) : answer.2 =
      some (u.apply r.arc.kind ((s.slot? (r.slot r.arc.kind t)).map (·.value)) who.now) := by
  have hids : r.terminals.ids = [t] := by rw [hone]; rfl
  cases h with
  | idle _ unaimed => exact absurd (hids.symm.trans unaimed) (List.cons_ne_nil t [])
  | @written gate code i cells passing new s₁ s₂ locks _ held passes writes =>
    obtain ⟨c, hc, hcells⟩ : ∃ c, s₁.lookup t = some c ∧ cells = [c] := by
      have hfound := held.located.terminals
      rw [hids] at hfound
      cases hfound with
      | cons hc hnil =>
        cases hnil
        exact ⟨_, hc, rfl⟩
    obtain rfl : none = gate := by
      have hgate := held.probed
      rw [hfree] at hgate
      exact Except.ok.inj hgate
    obtain rfl : passing = [c] := by
      rw [admitted_eq_ok passes, hcells]
      rfl
    rw [← held.arcAt? hs hn hc r.arc.kind]
    exact congrArg (fun x => x.1.2) writes.symm

/-- The ends of a connect toward one terminal could be held before. -/
theorem Action.ConnectRun.canHold_of_one (h : ConnectRun agree who r u G s (.ok answer) s')
    (hg : s.Guarded G) (hdown : s.locks.readonly = false) (hone : r.terminals = .one t)
    {id : String} (hid : id ∈ [r.initial, t]) (hc : s'.lookup id = some c) :
    s.CanHold who.thread c := by
  have hids : r.terminals.ids = [t] := by rw [hone]; rfl
  cases h with
  | idle _ unaimed => exact absurd (hids.symm.trans unaimed) (List.cons_ne_nil t [])
  | written held passes writes =>
    have hfound := ((held.lookup_dropAll_iff passes writes).1 hc).1
    refine held.canHold hg hdown ?_
    rcases List.mem_cons.1 hid with rfl | hid
    · exact .inl (Option.some.inj (hfound.symm.trans held.located.initial))
    · obtain rfl := List.mem_singleton.1 hid
      obtain ⟨d, hd, hd'⟩ := held.located.terminal (hids.symm ▸ hid)
      exact .inr (Option.some.inj (hfound.symm.trans hd') ▸ hd)

/-- An addition to a counter adds integers. -/
theorem ArcUpdate.apply_add_counter {d : Int} (hd : (Binary.ofInt d : Binary64).isFinite = true)
    (old : Option UInt32) (now : UInt32) :
    (ArcUpdate.add (.ofInt d)).apply .counter (old.map .unsigned) now =
      .unsigned (UInt32.ofNat (ArcKind.clampCount ((old.getD 0).toNat + d)).toNat) := by
  cases old with
  | none =>
    have hzero : ((0 : UInt32).toNat : Int) + d = d := by simp
    rw [Option.getD_none, hzero]
    exact (ArcKind.counts_ofInt d).saturate
  | some v => exact (ArcKind.counts_add v hd).saturate

/-- A clamped integer is a count. -/
theorem ArcKind.toNat_clampCount (n : Int) :
    ((UInt32.ofNat (clampCount n).toNat).toNat : Int) = clampCount n := by
  have hsize : UInt32.size = 4294967296 := rfl
  have hbounds : 0 ≤ clampCount n ∧ clampCount n ≤ 4294967295 := by
    unfold clampCount
    omega
  rw [UInt32.toNat_ofNat_of_lt' (by omega)]
  omega

/-- What a slot holds of a counter, if it holds anything. -/
structure Store.Tally (s : Store) (n : SlotName) (v : Option UInt32) : Prop where
  value : (s.slot? n).map (·.value) = v.map .unsigned
  regular : ∀ a, s.slot? n = some a → a.forwardOnly = false

/-- The connect that a count comes to. -/
def ConnectRequest.counting (initial relationship terminal : String) : ConnectRequest :=
  { initial, arc := { relationship, kind := .counter }, terminals := .one terminal }

/-- A count that comes to its end adds to its counter. -/
theorem Action.ConnectRun.tally {d : Int} {v : Option UInt32}
    (h : ConnectRun agree who (.counting initial relationship terminal) (.add (.ofInt d)) G s
      (.ok answer) s')
    (hs : s.Sound agree) (hn : s.Named) (hd : (Binary.ofInt d : Binary64).isFinite = true)
    (hv : s.Tally (.counter initial relationship terminal) v) :
    ∃ w : UInt32, (w.toNat : Int) = ArcKind.clampCount ((v.getD 0).toNat + d) ∧
      answer.2 = some (.unsigned w) ∧
        s'.Tally (.counter initial relationship terminal) (some w) ∧
          s'.inwardSlot? (.counter initial relationship terminal) =
            s'.slot? (.counter initial relationship terminal) := by
  refine ⟨_, ArcKind.toNat_clampCount _, ?_⟩
  have hvalue := ArcUpdate.apply_add_counter hd v who.now
  rw [← hv.value] at hvalue
  refine ⟨(h.value_of_one hs hn rfl rfl).trans (congrArg some hvalue), ?_⟩
  obtain ⟨gate, hgate, hanswered⟩ := h.answered hs hn
  obtain rfl : none = gate := Except.ok.inj hgate
  obtain ⟨code, hrelinked⟩ := hanswered.relinked
  have hcovers : (ConnectRequest.counting initial relationship terminal).Covers [terminal]
      (.counter initial relationship terminal) := ⟨rfl, rfl, List.mem_singleton_self terminal⟩
  have hleft : s'.slot? (.counter initial relationship terminal) =
      some ((ArcUpdate.add (.ofInt d)).over code .counter false who.now
        (s.slot? (.counter initial relationship terminal))) :=
    ((hrelinked.slot _).trans (if_pos hcovers)).trans (leaves_own fun h => nomatch h.2)
  have hregular : ((ArcUpdate.add (.ofInt d)).over code .counter false who.now
      (s.slot? (.counter initial relationship terminal))).forwardOnly = false := by
    change (s.slot? (.counter initial relationship terminal)).elim false (·.forwardOnly) = false
    cases hold : s.slot? (.counter initial relationship terminal) with
    | none => rfl
    | some a => exact hv.regular a hold
  refine ⟨⟨?_, fun a ha => ?_⟩, ?_⟩
  · rw [hleft]
    exact congrArg some hvalue
  · rw [hleft] at ha
    exact Option.some.inj ha ▸ hregular
  · rw [hrelinked.mirrored _ hcovers (.inl rfl), hleft, Option.filter, hregular]
    rfl

/-- An addition that answers has connected. -/
theorem Action.run_addTo {delta : Binary64} {v : ArcValue}
    (hrun : (addTo who initial relationship terminal kind delta).run s = (.ok v, s')) :
    delta.isFinite = true ∧ ∃ answer : Nat × Option ArcValue, answer.2 = some v ∧
      (connectWith who { initial, arc := { relationship, kind }, terminals := .one terminal }
        (.add delta)).run s = (.ok answer, s') := by
  unfold addTo at hrun
  dsimp only at hrun
  split at hrun
  next => cases hrun
  next hfinite =>
    rw [run_bind] at hrun
    cases hwith : (connectWith who
        { initial, arc := { relationship, kind }, terminals := .one terminal }
          (.add delta)).run s with
    | mk outcome s₁ =>
      rw [hwith] at hrun
      cases outcome with
      | error e => cases hrun
      | ok answer =>
        dsimp only at hrun
        split at hrun
        next value hvalue =>
          cases hrun
          exact ⟨by simpa using hfinite, answer, hvalue, rfl⟩
        next => cases hrun

/-- A count that answers has connected, and tells the value that it wrote last. -/
theorem Action.run_count {delta : Option Int} {w : UInt32}
    (hrun : (count who initial relationship terminal delta).run s = (.ok w, s')) :
    (Binary.ofInt (delta.getD 1) : Binary64).isFinite = true ∧
      ∃ (answer : Nat × Option ArcValue) (value : ArcValue), answer.2 = some value ∧
        value.unsigned?.getD 0 = w ∧
          (connectWith who (.counting initial relationship terminal)
            (.add (.ofInt (delta.getD 1)))).run s = (.ok answer, s') := by
  rw [count, run_bind_pure] at hrun
  cases hadd : (addTo who initial relationship terminal .counter (.ofInt (delta.getD 1))).run s with
  | mk outcome s₁ =>
    rw [hadd] at hrun
    cases outcome with
    | error e => cases hrun
    | ok value =>
      cases hrun
      obtain ⟨hfinite, answer, hadded, hwith⟩ := run_addTo hadd
      exact ⟨hfinite, answer, value, hadded, rfl, hwith⟩

/-! ## All of them -/

/-- A count that answers moves its counter as the integers do, and shows it. -/
theorem Arises.count_shows {s : Session} (h : Arises (fun _ => True) s) {delta : Option Int}
    {v : Option UInt32} {w : UInt32}
    (hv : s.store.Tally (.counter initial relationship terminal) v)
    (hok : (s.ask who (.count initial relationship terminal delta)).1 = .ok w) :
    (w.toNat : Int) = ArcKind.clampCount ((v.getD 0).toNat + delta.getD 1) ∧
      (s.ask who (.count initial relationship terminal delta)).2.store.Tally
        (.counter initial relationship terminal) (some w) ∧
      CountStep.Shows ⟨who, .ok w, (s.ask who (.count initial relationship terminal delta)).2⟩
        initial relationship terminal w := by
  obtain ⟨h', hsettings⟩ :=
    h.sameSettings_ask who (.count initial relationship terminal delta) rfl
  have hs := h.reach.sound
  have hrun : (count who initial relationship terminal delta).run s.store =
      (.ok w, (s.ask who (.count initial relationship terminal delta)).2.store) := Prod.ext hok rfl
  have hguards : (s.ask who (.count initial relationship terminal delta)).2.guards = s.guards := rfl
  generalize (s.ask who (.count initial relationship terminal delta)).2 = s' at *
  obtain ⟨hfinite, answer, value, hadded, rfl, hwith⟩ := run_count hrun
  have hwent := run_connectWith hs.store hs.guarded h.labels hwith
  obtain ⟨w, hw, hadded', htally, hmirror⟩ := hwent.tally hs.store h.lawful.named hfinite hv
  obtain rfl : value = .unsigned w := Option.some.inj (hadded.symm.trans hadded')
  rcases run_connectWith_cases hwith with ⟨_, _, herror, _⟩ | ⟨checked, _⟩
  · cases herror
  obtain ⟨a, ha, hav⟩ := Option.map_eq_some_iff.1 htally.value
  obtain ⟨i, t, _, hnames⟩ := denotes_of_slot? ha
  have hcan : ∀ {id c}, id ∈ [initial, terminal] → s'.store.lookup id = some c →
      s'.store.CanRead s'.guards who.thread [] c := by
    intro id c hid hc
    have hheld := hwent.canHold_of_one hs.guarded checked.writable rfl hid hc
    obtain ⟨hwriters, hroom⟩ := hheld.canRead hs.guarded
    exact hguards ▸ ⟨hwriters, hsettings.limit.symm ▸ hroom⟩
  refine ⟨hw, htally, rfl, htally.value, hmirror, ?_, ?_⟩
  · exact Session.reads_of_valueOf h'.reach.sound hnames.initial
      (hcan List.mem_cons_self hnames.initial)
      ((valueOf_out checked.relationship h'.reach.sound.store ha).trans (by rw [hav]; rfl))
  · exact Session.reads_of_valueOf h'.reach.sound hnames.terminal
      (hcan (List.mem_cons_of_mem _ List.mem_cons_self) hnames.terminal)
      ((valueOf_inward checked.relationship h'.reach.sound.store (hmirror.trans ha)).trans
        (by rw [hav]; rfl))

theorem Session.countEach_cons (s : Session) (who : Caller) (delta : Option Int)
    (rest : List (Caller × Option Int)) :
    s.countEach initial relationship terminal ((who, delta) :: rest) =
      ⟨who, (s.ask who (.count initial relationship terminal delta)).1,
        (s.ask who (.count initial relationship terminal delta)).2⟩ ::
      (s.ask who (.count initial relationship terminal delta)).2.countEach initial relationship
        terminal rest := rfl

theorem Arises.counts_show {s : Session} (h : Arises (fun _ => True) s) {v : Option UInt32}
    (hv : s.store.Tally (.counter initial relationship terminal) v)
    {calls : List (Caller × Option Int)}
    (hok : ∀ step ∈ s.countEach initial relationship terminal calls, ∃ w, step.answer = .ok w) :
    List.Forall₂ (fun step (n : Int) => ∃ w : UInt32, (w.toNat : Int) = n ∧
        step.Shows initial relationship terminal w)
      (s.countEach initial relationship terminal calls)
      (tallies (v.getD 0).toNat (calls.map Prod.snd)) := by
  induction calls generalizing s v with
  | nil => exact .nil
  | cons call rest ih =>
    obtain ⟨who, delta⟩ := call
    rw [Session.countEach_cons] at hok ⊢
    obtain ⟨w, hw⟩ := hok _ List.mem_cons_self
    dsimp only at hw
    obtain ⟨hsum, htally, hshows⟩ := h.count_shows hv hw
    have harises := (h.sameSettings_ask who (.count initial relationship terminal delta) rfl).1
    have hrest := ih harises htally fun step hm => hok step (List.mem_cons_of_mem _ hm)
    rw [Option.getD_some, hsum] at hrest
    refine .cons ⟨w, hsum, ?_⟩ hrest
    rw [hw]
    exact hshows

/-- Counts that all answer, where there was no counter before, come to the integers that are
told: what each of them answers is then stored, and read from either end. -/
theorem counts_are_exact {s : Session} (h : Arises (fun _ => True) s)
    (hvacant : s.store.slot? (.counter initial relationship terminal) = none)
    {calls : List (Caller × Option Int)}
    (hok : ∀ step ∈ s.countEach initial relationship terminal calls, ∃ w, step.answer = .ok w) :
    List.Forall₂ (fun step (n : Int) => ∃ w : UInt32, (w.toNat : Int) = n ∧
        step.Shows initial relationship terminal w)
      (s.countEach initial relationship terminal calls) (tallies 0 (calls.map Prod.snd)) :=
  h.counts_show (v := none) ⟨by rw [hvacant]; rfl, fun _ ha => nomatch hvacant.symm.trans ha⟩ hok

/-! ### An example -/

/-- The connect that a count of hits comes to, for any update. -/
def Session.hit (s : Session) (who : Caller) (u : ArcUpdate) :
    Except Error (Nat × Option ArcValue) × Session :=
  let (answer, store) := (connectWith who (.counting "a" "hits" "b") u).run s.store
  (answer, { s with store })

/-- Where that connect answers, the count does. -/
theorem Session.ask_count {s : Session} (delta : Option Int) {n : Nat} {v : ArcValue}
    (hd : (Binary.ofInt (delta.getD 1) : Binary64).isFinite = true)
    (hok : (s.hit who (.add (.ofInt (delta.getD 1)))).1 = .ok (n, some v)) :
    s.ask who (.count "a" "hits" "b" delta) =
      (.ok (v.unsigned?.getD 0), (s.hit who (.add (.ofInt (delta.getD 1)))).2) := by
  have hconnect : (connectWith who
      { initial := "a", arc := { relationship := "hits", kind := .counter }, terminals := .one "b" }
        (.add (.ofInt (delta.getD 1)))).run s.store =
      (.ok (n, some v), (s.hit who (.add (.ofInt (delta.getD 1)))).2.store) := Prod.ext hok rfl
  have hcounted : (count who "a" "hits" "b" delta).run s.store =
      (.ok (v.unsigned?.getD 0), (s.hit who (.add (.ofInt (delta.getD 1)))).2.store) := by
    rw [count, run_bind_pure, addTo]
    simp only [hd, Bool.not_true, Bool.false_eq_true, if_false, run_bind, hconnect]
    rfl
  rw [Session.ask, Request.action, Session.perform, hcounted]
  rfl

/-- Whether it answers does not depend on the update. -/
theorem hit_isOk (u u' u'' : ArcUpdate) : ∃ v v' v'',
    ((Session.new {} .new).hit ⟨⟨"m"⟩, 5⟩ u).1 = .ok (1, some v) ∧
      (((Session.new {} .new).hit ⟨⟨"m"⟩, 5⟩ u).2.hit ⟨⟨"u"⟩, 6⟩ u').1 =
        .ok (0, some v') ∧
      ((((Session.new {} .new).hit ⟨⟨"m"⟩, 5⟩ u).2.hit ⟨⟨"u"⟩, 6⟩ u').2.hit
        ⟨⟨"m"⟩, 7⟩ u'').1 = .ok (0, some v'') := by
  refine ⟨u.apply .counter none 5, u'.apply .counter (some (u.apply .counter none 5)) 6,
    u''.apply .counter (some (u'.apply .counter (some (u.apply .counter none 5)) 6)) 7,
    ?_, ?_, ?_⟩ <;>
    (set_option maxRecDepth 10000 in cbv)

/-- A counter passes its upper end and then its lower one, both by more than is exact. -/
theorem counts_are_exact_atEnds :
    List.Forall₂ (fun step (n : Int) => ∃ w : UInt32, (w.toNat : Int) = n ∧
        step.Shows "a" "hits" "b" w)
      ((Session.new {} .new).countEach "a" "hits" "b"
        [(⟨⟨"m"⟩, 5⟩, none), (⟨⟨"u"⟩, 6⟩, some 9223372036854775807),
          (⟨⟨"m"⟩, 7⟩, some (-9007199254740993))])
      [1, 4294967295, 0] := by
  have hfinite : (Binary.ofInt 1 : Binary64).isFinite = true ∧
      (Binary.ofInt 9223372036854775807 : Binary64).isFinite = true ∧
        (Binary.ofInt (-9007199254740993) : Binary64).isFinite = true := by
    refine ⟨?_, ?_, ?_⟩ <;> decide +kernel
  obtain ⟨v, v', v'', hfirst, hsecond, hthird⟩ := hit_isOk
    (.add (.ofInt ((none : Option Int).getD 1)))
    (.add (.ofInt ((some 9223372036854775807 : Option Int).getD 1)))
    (.add (.ofInt ((some (-9007199254740993) : Option Int).getD 1)))
  have hok : ∀ step ∈ (Session.new {} .new).countEach "a" "hits" "b"
      [(⟨⟨"m"⟩, 5⟩, none), (⟨⟨"u"⟩, 6⟩, some 9223372036854775807),
        (⟨⟨"m"⟩, 7⟩, some (-9007199254740993))], ∃ w, step.answer = .ok w := by
    rw [Session.countEach_cons, Session.ask_count none hfinite.1 hfirst, Session.countEach_cons,
      Session.ask_count (some _) hfinite.2.1 hsecond, Session.countEach_cons,
      Session.ask_count (some _) hfinite.2.2 hthird]
    intro step hm
    rcases List.mem_cons.1 hm with rfl | hm
    · exact ⟨_, rfl⟩
    rcases List.mem_cons.1 hm with rfl | hm
    · exact ⟨_, rfl⟩
    · obtain rfl := List.mem_singleton.1 hm
      exact ⟨_, rfl⟩
  exact counts_are_exact arises_new rfl hok

end Arcbase
