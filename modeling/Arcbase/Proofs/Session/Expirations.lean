import Arcbase.Proofs.Action.Unhindered
import Arcbase.Proofs.Session.Timely
import Mathlib
set_option autoImplicit false

/-!
# Expirations come to pass

As long as a graph is in use, whatever is stored to expire is scheduled for that very time.
So a pass while no handle is open leaves nothing that has expired, and a vertex whose
deletion ended incomplete is gone after it, or virtual (`expirations_kept`).
-/

namespace Arcbase

open Arcbase.Action Store

/-- The sessions of graphs in use, which may share label tables with others. -/
inductive Lived : Session → Prop where
  | start (config : Config) (relationships types : Nat) :
      Lived (.new config (.withCapacity relationships types))
  | step {s : Session} (before : Lived s) (who : Caller) (op : Operation) (fit : op.Fit who s) :
      Lived (op.after who s)
  | relabel {s : Session} (before : Lived s) {labels : Labels}
      (grown : s.store.labels.Grows labels) : Lived { s with store := { s.store with labels } }

/-- The last deletion of a vertex ended incomplete at a clock; since then no other deletion
has got hold of it, and the time at which it expires has not been set. -/
inductive Abandoned (c : CellId) : UInt32 → Session → Prop where
  | left {s : Session} (before : Lived s) (who : Caller) (op : Operation) (fit : op.Fit who s)
      {r : Except Error Nat} (deleted : (c, r) ∈ op.deletions who s)
      (incomplete : Incomplete r) : Abandoned c who.now (op.after who s)
  | later {s : Session} {clock : UInt32} (before : Abandoned c clock s) (who : Caller)
      (op : Operation) (fit : op.Fit who s) (spared : op.Spares who s c) :
      Abandoned c clock (op.after who s)
  | relabel {s : Session} {clock : UInt32} (before : Abandoned c clock s) {labels : Labels}
      (grown : s.store.labels.Grows labels) :
      Abandoned c clock { s with store := { s.store with labels } }

namespace Store

/-- Whatever is stored to expire is scheduled for that very time. -/
structure Scheduled (s : Store) : Prop where
  vertices : ∀ id c time, s.lookup id = some c → (s.data c).expires = some time →
    s.schedule.time? (.vertex id) = some time
  arcs : ∀ p ∈ s.arcs, p.arc.kind = .timeExpires → ∃ initial relationship terminal time,
    s.contains initial ∧ p.initial = .of initial ∧
    s.contains terminal ∧ p.terminal = .of terminal ∧
    s.labels.relationships.decode? p.arc.relationship = some relationship ∧
    p.arc.value = .unsigned time ∧
    s.schedule.time? (.arc initial relationship terminal) = some time

/-- Whatever is stored to expire does so after some time. -/
structure Unexpired (time : UInt32) (s : Store) : Prop where
  vertices : ∀ id c t, s.lookup id = some c → (s.data c).expires = some t → time < t
  arcs : ∀ p ∈ s.arcs, p.arc.kind = .timeExpires → ∃ t, p.arc.value = .unsigned t ∧ time < t

/-- A vertex that is gone, or virtual and the terminal of a forward-only arc. -/
def Retired (c : CellId) (s : Store) : Prop :=
  ¬ s.Live c ∨ (s.data c).manifestation = .virtual ∧
    ∃ p ∈ s.arcs, p.terminal = s.keyOf c ∧ p.arc.forwardOnly = true

variable {agree : Agreement} {pending : Expiring → Option UInt32} {s : Store}

theorem marks_of_lookup (hs : s.Sound agree) {id : String} {c : CellId} {time : UInt32}
    (hc : s.lookup id = some c) (he : (s.data c).expires = some time) :
    s.Marks (.vertex id) time := by
  obtain ⟨hlive, rfl⟩ := hs.placed.of_lookup hc
  exact .vertex hlive he

/-- An arc with a time has ends that are there, and a relationship that has a name. -/
theorem Timely.marks_of_mem_arcs (ht : s.Timely pending) (hs : s.Sound agree) {p : PlacedArc}
    (hp : p ∈ s.arcs) (hkind : p.arc.kind = .timeExpires) :
    ∃ initial relationship terminal time, s.contains initial ∧ p.initial = .of initial ∧
      s.contains terminal ∧ p.terminal = .of terminal ∧
      s.labels.relationships.decode? p.arc.relationship = some relationship ∧
      p.arc.value = .unsigned time ∧ s.Marks (.arc initial relationship terminal) time := by
  obtain ⟨i, hi, hik, hfound⟩ := (mem_arcs_iff_arcIn? hs).1 hp
  obtain ⟨t, htl, htk⟩ := live_of_mem_arcs hs hp (.inr rfl)
  have hstored : s.arcAt? i t p.arc.relationship .timeExpires = some p.arc := by
    rw [← hkind, arcAt?, show (s.cell t).key = p.terminal from htk]
    exact hfound
  obtain ⟨relationship, time, _, hnamed, hvalue⟩ := ht.coded i t _ _ hi htl hstored
  have hcontains : ∀ c, s.Live c → s.contains (s.cell c).id := fun c hc => by
    rw [contains, hs.placed.lookup_of_live hc]
    rfl
  exact ⟨(s.cell i).id, relationship, (s.cell t).id, time, hcontains i hi,
    hik.symm.trans (hs.placed.keyed i hi.1), hcontains t htl,
    htk.symm.trans (hs.placed.keyed t htl.1), hnamed, hvalue, .arc hi htl hstored hnamed hvalue⟩

theorem Timely.scheduled (ht : s.Timely fun _ => none) (hs : s.Sound agree) : s.Scheduled := by
  have hdue : ∀ item time, s.Marks item time → s.schedule.time? item = some time :=
    fun item time hm => (Option.or_none ..).symm.trans (ht.marked item time hm)
  refine ⟨fun id c time hc he => hdue _ _ (marks_of_lookup hs hc he), fun p hp hkind => ?_⟩
  obtain ⟨initial, relationship, terminal, time, hi, hik, htl, htk, hnamed, hvalue, hm⟩ :=
    ht.marks_of_mem_arcs hs hp hkind
  exact ⟨initial, relationship, terminal, time, hi, hik, htl, htk, hnamed, hvalue, hdue _ _ hm⟩

theorem Timely.unexpired (ht : s.Timely pending) (hs : s.Sound agree) {time : UInt32}
    (hlate : ∀ item t, s.Marks item t → time < t) : s.Unexpired time := by
  refine ⟨fun id c t hc he => hlate _ _ (marks_of_lookup hs hc he), fun p hp hkind => ?_⟩
  obtain ⟨_, _, _, t, _, _, _, _, _, hvalue, hm⟩ := ht.marks_of_mem_arcs hs hp hkind
  exact ⟨t, hvalue, hlate _ _ hm⟩

end Store

variable {s : Session} {c : CellId} {clock : UInt32}

/-! ## Graphs in use -/

theorem Lived.reach (h : Lived s) : Reach Operation.Live s := by
  induction h with
  | start config relationships types => exact .start config _
  | step _ who op fit ih => exact ih.step who op fit.live
  | relabel _ grown ih => exact ih.relabel _

theorem Lived.timely (h : Lived s) : s.store.Timely fun _ => none := by
  induction h with
  | start config relationships types =>
    exact timely_new config (Labels.valid_withCapacity relationships types)
  | step before who op fit ih => exact (op.lasting_after before.reach.sound_live ih fit).timely
  | relabel _ grown ih => exact ih.calm (calm_labels grown.valid grown.keeps)

/-- A deletion that ends incomplete has its vertex expire at once. -/
theorem expires_request_of_incomplete {α : Type} {who : Caller} {agree : Agreement}
    {G : List Guard} {s s' : Store} {r : Request α} {out : Except Error α}
    {deleted : Except Error Nat} (hs : s.Sound agree) (hg : s.Guarded G)
    (hrun : (r.action who).run s = (out, s')) (hm : (c, deleted) ∈ r.deletions who s)
    (hd : Incomplete deleted) : s.Live c ∧ (s'.data c).expires = some who.now := by
  cases r with
  | delete id =>
    rw [Request.deletions] at hm
    obtain ⟨id', he, hfound, rfl⟩ := mem_deletion_iff.1 hm
    obtain rfl := Expiring.vertex.inj he
    have hstore : s' = ((Action.delete who id).run s).2 := (congrArg Prod.snd hrun).symm
    refine ⟨(hs.placed.of_lookup hfound).1, ?_⟩
    rw [hstore]
    exact (run_delete hs hg rfl).expires_of_incomplete hs hg hfound hd
  | runExpiration time =>
    rw [Request.deletions] at hm
    rcases run_runExpiration hrun with ⟨hdown, _, _⟩ | ⟨hup, report, again, s₁, _, _, run, rfl⟩
    · rw [hdown, if_pos rfl] at hm
      exact absurd hm List.not_mem_nil
    · rw [hup, if_neg Bool.false_ne_true] at hm
      obtain ⟨hs₀, hg₀⟩ := sound_popped hs hg time
      obtain rfl := run.store
      have hdistinct := Schedule.nodup_popDue s.schedule time
      exact ⟨(mem_of_mem_deletions hs₀ hg₀ hm).1,
        expires_tryAll_of_incomplete hs₀ hg₀ hdistinct hm hd⟩
  | _ => exact absurd hm List.not_mem_nil

theorem Abandoned.lived (h : Abandoned c clock s) : Lived s := by
  induction h with
  | left before who op fit _ _ => exact before.step who op fit
  | later _ who op fit _ ih => exact ih.step who op fit
  | relabel _ grown ih => exact ih.relabel grown

/-- A vertex whose deletion was given up expires at the clock of that deletion, be it in the
graph or not. -/
theorem Abandoned.expires (h : Abandoned c clock s) :
    c < s.store.cells.size ∧ (s.store.data c).expires = some clock := by
  induction h with
  | @left s before who op fit r deleted incomplete =>
    have hs := before.reach.sound_live
    have hcount := (op.lasting_after hs before.timely fit).count
    cases op with
    | ask r =>
      obtain ⟨hlive, hexpires⟩ :=
        expires_request_of_incomplete hs.store hs.guarded rfl deleted incomplete
      exact ⟨Nat.lt_of_lt_of_le hlive.1 hcount, hexpires⟩
    | _ => exact absurd deleted List.not_mem_nil
  | later before who op fit spared ih =>
    have hlasting := op.lasting_after before.lived.reach.sound_live before.lived.timely fit
    exact ⟨Nat.lt_of_lt_of_le ih.1 hlasting.count, (hlasting.expires c ih.1 spared).trans ih.2⟩
  | relabel _ _ ih => exact ih

/-! ## Passes -/

theorem guards_eq_nil (h : ∀ name, s.handle? name = none) : s.guards = [] := by
  refine List.eq_nil_iff_forall_not_mem.2 fun g hg => ?_
  obtain ⟨name, hname⟩ := AssocMap.mem_values_iff.1 hg
  rw [show s.handles.get? name = none from h name] at hname
  cases hname

/-- A pass fails only while the graph is readonly. -/
theorem runExpiration_isOk (s : Session) (who : Caller) (time : UInt32)
    (hup : s.store.locks.readonly = false) :
    ∃ report, (s.ask who (.runExpiration time)).1 = .ok report := by
  cases hrun : (runExpiration who time).run s.store with
  | mk r store =>
    rcases run_runExpiration hrun with ⟨hdown, _, _⟩ | ⟨_, report, _, _, rfl, _, _, _⟩
    · rw [hup] at hdown
      cases hdown
    · exact ⟨report, congrArg Prod.fst hrun⟩

/-- No expiration is lost: what is stored to expire is scheduled, and is gone after a pass
that nobody stands in the way of. -/
theorem expirations_kept (h : Lived s) :
    s.store.Scheduled ∧
      ∀ (who : Caller) (time : UInt32), (∀ name, s.handle? name = none) →
        (s.store.locks.readonly = false →
          ∃ report, (s.ask who (.runExpiration time)).1 = .ok report) ∧
        ∀ report, (s.ask who (.runExpiration time)).1 = .ok report →
          (s.ask who (.runExpiration time)).2.store.Unexpired time ∧
            ∀ c clock, Abandoned c clock s → clock ≤ time →
              (s.ask who (.runExpiration time)).2.store.Retired c := by
  have hsound := h.reach.sound_live
  have ht := h.timely
  have hscheduled := ht.scheduled hsound.store
  refine ⟨hscheduled, fun who time hidle => ⟨runExpiration_isOk s who time, fun report hok => ?_⟩⟩
  have hg : s.store.Guarded [] := guards_eq_nil hidle ▸ hsound.guarded
  have hafter := (h.step who (.ask (.runExpiration time)) rfl).reach.sound_live.store
  cases hrun : (runExpiration who time).run s.store with
  | mk r store =>
    have hask : s.ask who (.runExpiration time) = (r, { s with store }) := by
      simp only [Session.ask, Session.perform, Request.action, hrun]
    rw [Operation.after, hask] at hafter
    rw [hask] at hok ⊢
    obtain rfl : r = .ok report := hok
    refine ⟨?_, fun c clock habandoned hle => ?_⟩
    · exact (timely_runExpiration hsound.store hg ht hrun).unexpired hafter
        fun _ _ hm => unexpired_runExpiration hsound.store hg ht hrun hm
    · obtain ⟨hc, hexpires⟩ := habandoned.expires
      refine or_iff_not_imp_left.2 fun hlive' => ?_
      have hlive' : store.Live c := not_not.1 hlive'
      have hlive := (swept_pass hsound.store hg hrun).live c hlive'
      have hdue := hscheduled.vertices _ c clock (hsound.store.placed.lookup_of_live hlive) hexpires
      have hsunk := sunk_runExpiration hsound.store hg hrun hc hdue hle hlive'
      exact ⟨hsunk.virtual, hsunk.arc hafter hlive'⟩

/-- A vertex with a neighbor that another thread reads, right before the vertex is deleted. -/
def crowded : Session :=
  (Operation.openVertex "h" "b" .readonly).after ⟨⟨"t"⟩, 6⟩
    ((Operation.ask (.connect
      { initial := "a", arc := { relationship := "r" }, terminals := .one "b" })).after
        ⟨⟨"m"⟩, 5⟩ (.new {} .new))

/-- The deletion has ended incomplete, and the other thread has closed its handle. -/
def released : Session :=
  (Operation.close "h").after ⟨⟨"t"⟩, 8⟩
    ((Operation.ask (.delete "a")).after ⟨⟨"m"⟩, 7⟩ crowded)

theorem lived_crowded : Lived crowded := by
  have hempty : Lived (.new {} .new) := .start {} 65535 65535
  have hconnected := hempty.step ⟨⟨"m"⟩, 5⟩ (.ask (.connect
    { initial := "a", arc := { relationship := "r" }, terminals := .one "b" })) rfl
  exact hconnected.step ⟨⟨"t"⟩, 6⟩ (.openVertex "h" "b" .readonly) trivial

theorem abandoned_released : Abandoned 0 7 released := by
  have hdeletions : (Operation.ask (.delete "a")).deletions ⟨⟨"m"⟩, 7⟩ crowded =
      [(0, .error (.arc (.incomplete 0 1 (.timeout "b" .writable))))] := by
    set_option maxRecDepth 10000 in
    cbv
  have hleft : Abandoned 0 7 ((Operation.ask (.delete "a")).after ⟨⟨"m"⟩, 7⟩ crowded) :=
    .left lived_crowded ⟨⟨"m"⟩, 7⟩ (.ask (.delete "a")) rfl
      (hdeletions ▸ List.mem_cons_self) ⟨0, 1, _, rfl⟩
  exact hleft.later ⟨⟨"t"⟩, 8⟩ (.close "h") trivial ⟨fun _ hm => absurd hm List.not_mem_nil, id⟩

/-- What was left of the vertex is gone after a pass at the clock of its deletion. -/
theorem expirations_kept_released :
    let after := released.ask ⟨⟨"m"⟩, 9⟩ (.runExpiration 7)
    after.1 = .ok { vertices := 1 } ∧ released.store.Scheduled ∧ after.2.store.Unexpired 7 ∧
      after.2.store.Retired 0 := by
  obtain ⟨hempty, hok⟩ : released.handles.size = 0 ∧
      (released.ask ⟨⟨"m"⟩, 9⟩ (.runExpiration 7)).1 = .ok { vertices := 1 } := by
    set_option maxRecDepth 10000 in
    cbv
  have hidle : ∀ name, released.handle? name = none :=
    AssocMap.get?_eq_none_of_size_eq_zero hempty
  obtain ⟨hscheduled, hpass⟩ := expirations_kept abandoned_released.lived
  obtain ⟨hunexpired, hretired⟩ := (hpass ⟨⟨"m"⟩, 9⟩ 7 hidle).2 _ hok
  exact ⟨hok, hscheduled, hunexpired, hretired 0 7 abandoned_released (by decide)⟩

end Arcbase
