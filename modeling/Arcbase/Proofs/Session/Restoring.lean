import Arcbase.Proofs.Session.Arising
import Arcbase.Proofs.Session.Expirations
import Arcbase.Proofs.Snapshot.Filled
import Arcbase.Proofs.Store.TwoSided
set_option autoImplicit false

/-!
# What a restore makes of any snapshot

Into an empty graph of which nothing is scheduled, a restore puts what the snapshot lists,
or it changes nothing but the label tables (`filled_restore`).  The two sides of all arcs
agree, and what expires is scheduled, if the snapshot does not list a slot with one value
first and another one last; it may do so (`not_twoSided_repeatedArc`).
-/

namespace Arcbase

open Arcbase.Action Store

namespace Filled

variable {snapshot : Snapshot} {s : Store} (h : Filled snapshot s) (hs : s.Sound .slots)
include h hs

/-- Where each slot has one value, whatever expires is scheduled. -/
theorem scheduled_of_settled (hdated : Dated snapshot s) (hsettled : snapshot.Settled) :
    s.Scheduled := by
  refine ⟨fun id c time hc he => (hdated.vertices id time).2 ⟨c, hc, he⟩, fun p hp hkind => ?_⟩
  obtain ⟨i, t, hi, ht, hik, htk, harc⟩ := exists_arcAt? hs hp
  rw [hkind] at harc
  obtain ⟨⟨initial, terminal, relationship, kind⟩, a, b, hinitial, hterminal, rfl, hcode, ha, hb,
    hstored⟩ := h.exists_slot hs hi ht harc
  obtain ⟨hm, hslot⟩ := Snapshot.mem_of_first? ha
  have hallows := (h.ends a hm).1
  rw [show a.kind = .timeExpires from congrArg ArcSlot.kind hslot] at hallows
  obtain ⟨time, htime⟩ := ArcKind.unsigned_of_allows hallows
  have hvalue := hsettled _ a b ha hb (.inr rfl)
  have htimes := hdated.arcs initial relationship terminal
  rw [ha, Option.bind_some, htime] at htimes
  exact ⟨initial, relationship, terminal, time, Option.isSome_of_eq_some hinitial,
    hik.symm.trans (hs.placed.keyOf_of_lookup hinitial), Option.isSome_of_eq_some hterminal,
    htk.symm.trans (hs.placed.keyOf_of_lookup hterminal), hcode,
    (congrArg StoredArc.value hstored).symm.trans (hvalue.symm.trans htime), htimes⟩

/-- Where the two sides agree and whatever expires is scheduled, each slot has one value. -/
theorem settled (hdated : Dated snapshot s) (htwo : s.TwoSided) (hscheduled : s.Scheduled) :
    snapshot.Settled := by
  intro slot a b ha hb hcase
  obtain ⟨hm, rfl⟩ := Snapshot.mem_of_first? ha
  obtain ⟨hallows, i, t, code, hinitial, hterminal, hcode⟩ := h.ends a hm
  obtain ⟨hi, _⟩ := hs.placed.of_lookup hinitial
  obtain ⟨ht, _⟩ := hs.placed.of_lookup hterminal
  have hout := h.out a.slot i t code hinitial hterminal hcode
  rw [hb, Option.map_some] at hout
  rcases hcase with hforward | hkind
  · have hin := h.inward a.slot i t code hinitial hterminal hcode
    rw [ha, Option.filter_some_pos (by rw [hforward]; rfl), Option.map_some] at hin
    have hmem : a.stored code ∈ (s.data t).inbound.arcsTo (s.keyOf i) :=
      (ArcIndex.mem_arcsTo_iff (hs.paired.valid t ht).2 _ _).2 hin
    have hside := ((htwo.mirrored i ((mem_registered_iff hs.placed).2 hi) t
      ((mem_registered_iff hs.placed).2 ht) (a.stored code)).2 hmem).1
    have hsame := (ArcIndex.mem_arcsTo_iff (hs.paired.valid i hi).1 _ _).1 hside
    exact congrArg StoredArc.value (Option.some.inj (hsame.symm.trans hout))
  · have hkindb : b.kind = .timeExpires :=
      (congrArg ArcSlot.kind (Snapshot.mem_of_last? hb).2).trans hkind
    obtain ⟨initial, relationship, terminal, time, hci, hki, hct, hkt, hdecode, hvalue, htimes⟩ :=
      hscheduled.arcs _ (arcAt?_mem_arcs hs hi hout) hkindb
    obtain rfl := hs.placed.eq_of_contains hci (Option.isSome_of_eq_some hinitial)
      (hki.symm.trans (hs.placed.keyOf_of_lookup hinitial))
    obtain rfl := hs.placed.eq_of_contains hct (Option.isSome_of_eq_some hterminal)
      (hkt.symm.trans (hs.placed.keyOf_of_lookup hterminal))
    obtain rfl := Option.some.inj (hdecode.symm.trans hcode)
    have hslot : a.slot = ⟨a.initial, a.terminal, a.relationship, .timeExpires⟩ := by
      rw [ArcSnapshot.slot, show a.kind = .timeExpires from hkind]
    rw [hdated.arcs, ← hslot, ha, Option.bind_some] at htimes
    rw [show a.kind = .timeExpires from hkind] at hallows
    obtain ⟨time', htime⟩ := ArcKind.unsigned_of_allows hallows
    rw [htime] at htimes ⊢
    rw [show b.value = .unsigned time from hvalue]
    exact congrArg ArcValue.unsigned (Option.some.inj htimes)

end Filled

/-! ## Restores of sessions -/

variable {s : Session} {snapshot : Snapshot}

/-- What comes of a restore into an empty graph. -/
theorem Arises.restored {ok : Operation → Prop} (h : Arises ok s) (hempty : s.store.order = 0)
    (who : Caller) (snapshot : Snapshot) :
    (∃ e, (s.ask who (.restore snapshot)).1 = .error e ∧ ∃ labels, s.store.labels.Grows labels ∧
        (s.ask who (.restore snapshot)).2 = { s with store := { s.store with labels } }) ∨
      (s.ask who (.restore snapshot)).1 = .ok () ∧
        (s.ask who (.restore snapshot)).2.store.Sound .slots ∧
        Filled snapshot (s.ask who (.restore snapshot)).2.store ∧
        (s.store.schedule.size = 0 → Dated snapshot (s.ask who (.restore snapshot)).2.store) := by
  have htable := AssocMap.eq_empty_of_size_eq_zero hempty
  cases hrun : (restore snapshot).run s.store with
  | mk r s' =>
    have hask : s.ask who (.restore snapshot) = (r, { s with store := s' }) := by
      change s.perform (restore snapshot) = _
      rw [Session.perform, hrun]
    have hsound := (sound_restore snapshot hrun h.reach.sound.store).1
    rw [hask]
    rcases fill_restore (kept_staged snapshot h.labels) hrun with
      ⟨⟨e, rfl⟩, _, l, hgrows, rfl⟩ | ⟨rfl, _, g, l, _, hstaged, rfl⟩
    · exact .inl ⟨e, rfl, l, hgrows, rfl⟩
    · exact .inr ⟨rfl, hsound,
        filled_commit (s := { s.store with labels := l }) hstaged htable hsound,
        dated_commit (s := { s.store with labels := l }) hstaged htable⟩

/-- A restore into an empty graph of which nothing is scheduled puts in what the snapshot
lists, or changes nothing but the label tables.  The two sides of all arcs agree then, and
whatever expires is scheduled, exactly if the snapshot gives each slot one value. -/
theorem filled_restore (h : Arises (fun _ => True) s) (hempty : s.store.order = 0)
    (hidle : s.store.schedule.size = 0) (who : Caller) (snapshot : Snapshot) :
    ((s.ask who (.restore snapshot)).1 = .ok () →
        Filled snapshot (s.ask who (.restore snapshot)).2.store ∧
          Dated snapshot (s.ask who (.restore snapshot)).2.store ∧
          ((s.ask who (.restore snapshot)).2.store.TwoSided ∧
            (s.ask who (.restore snapshot)).2.store.Scheduled ↔ snapshot.Settled)) ∧
      ∀ e, (s.ask who (.restore snapshot)).1 = .error e → ∃ labels, s.store.labels.Grows labels ∧
        (s.ask who (.restore snapshot)).2 = { s with store := { s.store with labels } } := by
  rcases h.restored hempty who snapshot with
    ⟨e, herror, labels, hgrows, hafter⟩ | ⟨hok, hsound, hfilled, hdates⟩
  · refine ⟨fun hok => ?_, fun _ _ => ⟨labels, hgrows, hafter⟩⟩
    rw [herror] at hok
    cases hok
  · have hdated := hdates hidle
    refine ⟨fun _ => ⟨hfilled, hdated, fun h => hfilled.settled hsound hdated h.1 h.2, fun h =>
      ⟨(hfilled.sound_of_settled hsound h).twoSided,
        hfilled.scheduled_of_settled hsound hdated h⟩⟩, fun e herror => ?_⟩
    rw [hok] at herror
    cases herror

/-- An arc that expires, listed with two times. -/
def repeatedArc : Snapshot :=
  { name := "graph"
    vertices := [{ id := "a" }, { id := "b" }]
    arcs := [⟨"a", "r", .timeExpires, .unsigned 100, false, "b"⟩,
      ⟨"a", "r", .timeExpires, .unsigned 200, false, "b"⟩] }

theorem arises_new : Arises (fun _ => True) (.new {} .new) := .start {} 65535 65535 .refl

theorem restore_repeatedArc :
    (Session.ask (.new {} .new) ⟨⟨"m"⟩, 5⟩ (.restore repeatedArc)).1 = .ok () := by
  decide +kernel

theorem not_settled_repeatedArc : ¬ repeatedArc.Settled := by
  intro hsettled
  have hvalue := hsettled ⟨"a", "b", "r", .timeExpires⟩
    ⟨"a", "r", .timeExpires, .unsigned 100, false, "b"⟩
    ⟨"a", "r", .timeExpires, .unsigned 200, false, "b"⟩ (by decide) (by decide) (.inr rfl)
  exact absurd hvalue (by decide)

/-- It is restored, but the graph has the last time at the initial and the first elsewhere. -/
theorem filled_restore_repeatedArc :
    (Session.ask (.new {} .new) ⟨⟨"m"⟩, 5⟩ (.restore repeatedArc)).1 = .ok () ∧
      Filled repeatedArc (Session.ask (.new {} .new) ⟨⟨"m"⟩, 5⟩ (.restore repeatedArc)).2.store :=
  ⟨restore_repeatedArc,
    ((filled_restore arises_new rfl rfl ⟨⟨"m"⟩, 5⟩ repeatedArc).1 restore_repeatedArc).1⟩

theorem not_twoSided_repeatedArc :
    ¬ ∀ s : Session, Arises (fun _ => True) s → s.store.order = 0 → s.store.schedule.size = 0 →
      ∀ (who : Caller) (snapshot : Snapshot), (s.ask who (.restore snapshot)).1 = .ok () →
        (s.ask who (.restore snapshot)).2.store.TwoSided ∧
          (s.ask who (.restore snapshot)).2.store.Scheduled := by
  intro hall
  obtain ⟨htwo, hscheduled⟩ :=
    hall _ arises_new rfl rfl ⟨⟨"m"⟩, 5⟩ repeatedArc restore_repeatedArc
  rcases arises_new.restored rfl ⟨⟨"m"⟩, 5⟩ repeatedArc with
    ⟨e, herror, _⟩ | ⟨_, hsound, hfilled, hdated⟩
  · rw [restore_repeatedArc] at herror
    cases herror
  · exact not_settled_repeatedArc (hfilled.settled hsound (hdated rfl) htwo hscheduled)

end Arcbase
