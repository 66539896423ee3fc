import Arcbase.Proofs.Session.Arising
import Mathlib
set_option autoImplicit false

/-!
# Stored values are those of their kinds

An arc is stored at its initial and, unless it is forward-only, at its terminal.  After a
restore the two sides need not hold the same value, so that what holds of one does not
pass on to the other.  That the inbound side is well-typed too (`TypedInward`) is kept move
by move: an update that fits its kind writes one and the same arc on both sides, and a
removal puts nothing in (`Move.typedInward`).  A restore checks every arc before it is staged
on either side (`ArcsStaged.typedInward`).

So whatever is stored with any vertex of any graph is a value of its kind (`typed_of_arises`).
-/

namespace Arcbase

namespace Store

/-- Every value on the inbound side of a vertex is one of its kind. -/
def TypedInward (s : Store) : Prop :=
  ∀ c n, ∀ a ∈ (s.data c).inbound.arcsTo n, a.kind.allows a.value = true

variable {agree : Agreement} {s s' : Store}

theorem TypedInward.of_fewer (h : s.TypedInward) (hfewer : s.FewerInward s') : s'.TypedInward :=
  fun c n a ha => h c n a (hfewer c n ha)

/-- The arc that is written is allowed on the inbound side if it is on the outbound one. -/
theorem TypedInward.putArc (h : s.TypedInward) {i t : CellId} (hi : s.Live i) (ht : s.Live t)
    {relationship : LabelCode} {kind : ArcKind} {forwardOnly : Bool} {u : ArcUpdate} {now : UInt32}
    (hnew : (s.writtenArc i t relationship kind forwardOnly u now).kind.allows
      (s.writtenArc i t relationship kind forwardOnly u now).value = true) :
    (s.putArc i t relationship kind forwardOnly u now).2.TypedInward := by
  intro c n a ha
  rw [data_putArc _ _ _ _ _ hi.1 ht.1, dataWith] at ha
  dsimp only at ha
  split at ha
  · rw [ArcIndex.arcsTo_insert] at ha
    split at ha
    · rcases Slots.mem_put ha with rfl | ha
      · exact hnew
      · exact h c _ a ha
    · exact h c n a ha
  · exact h c n a ha

end Store

open Store

variable {D : String → Prop} {A : Prop} {agree : Agreement} {x y : Scene}

/-! ## Move by move -/

theorem Move.typedInward (m : Move D A x y) (hx : x.Ordered agree) (hout : x.store.Valued)
    (h : x.store.TypedInward) : y.store.TypedInward := by
  rcases m.inward hx with hfewer | ⟨_, i, t, _, _, _, _, _, hi, ht, hadmits, hput⟩
  · exact h.of_fewer hfewer
  · rw [hput]
    exact h.putArc hi ht (hadmits.value hout)

theorem Moves.typedInward (m : Moves D A x y) (hx : x.Ordered agree) (hlaw : x.store.Lawful)
    (h : x.store.TypedInward) : y.store.TypedInward := by
  induction m with
  | refl => exact h
  | tail hm m ih =>
    exact m.typedInward (Moves.ordered hm hx) (Moves.lawful hm hx hlaw).valued ih

/-! ## Restores -/

/-- Of the arcs that a slot is given, the terminal keeps the first, and all have been checked. -/
theorem ArcsStaged.typedInward {s : Store} {vertices : List VertexSnapshot}
    {arcs : List ArcSnapshot} {g : Staging} {l : Labels} (h : ArcsStaged s vertices arcs g l)
    (hs : (g.commit { s with labels := l }).Sound agree) (hold : s.TypedInward) :
    (g.commit { s with labels := l }).TypedInward := by
  obtain ⟨coded, _, _, hf⟩ := h.filed
  intro c n a ha
  by_cases hc : c < (g.commit { s with labels := l }).cells.size
  · rcases g.cell_commit_cases { s with labels := l } hc with ⟨_, hsame⟩ | ⟨key, hcell⟩
    · rw [data, hsame] at ha
      exact hold c n a ha
    · -- a staged vertex is in the graph, so that its index is in order
      obtain ⟨c', hc', hsame⟩ := Staging.cell_commit h.keyed { s with labels := l } hcell
      have hvalid := (hs.paired.valid c' (hs.placed.live_of_lookup hc')).2
      rw [data, hsame] at hvalid
      have hat := (ArcIndex.mem_arcsTo_iff hvalid n a).1 ha
      rw [hf.inbound key _ hcell] at hat
      obtain ⟨p, hp, rfl⟩ := Option.map_eq_some_iff.1 hat
      exact hf.allowed p (CodedArc.mem_of_first? (Option.filter_eq_some_iff.1 hp).1).1
  · rw [data_of_size_le (Nat.le_of_not_lt hc)] at ha
    exact absurd ha List.not_mem_nil

/-! ## Graphs that arise -/

variable {ok : Operation → Prop} {s : Session}

theorem Arises.typedInward (h : Arises ok s) : s.store.TypedInward := by
  induction h with
  | start config => exact fun c n a ha => absurd ha List.not_mem_nil
  | @step s before who op _ ih =>
    have hs := before.reach.sound
    by_cases hlive : op.Live
    · exact Moves.typedInward (op.moves_after hs before.valid who hlive) hs.ordered
        before.lawful ih
    · cases op with
      | ask r =>
        cases r with
        | restore snapshot =>
          cases hrun : (Action.restore snapshot).run s.store with
          | mk r s' =>
            have hafter : ((Operation.ask (.restore snapshot)).after who s).store = s' :=
              congrArg Prod.snd hrun
            rw [hafter]
            have hs' := (Action.sound_restore snapshot hrun hs.store).1
            rcases Action.fill_restore (Action.kept_staged snapshot before.labels) hrun with
              ⟨_, _, l, _, rfl⟩ | ⟨_, _, g, l, _, hstaged, rfl⟩
            · exact ih
            · exact hstaged.typedInward hs' ih
        | _ => exact absurd rfl hlive
      | _ => exact absurd trivial hlive
  | relabel _ _ ih => exact ih

/-- Whatever a vertex has stored on either side, in any graph that arises, is a value of its
kind: it has the form of the kind and lies in its domain.  So no real is infinite or no
number, no similarity leaves the range from -1 to 1, and no distance is negative. -/
theorem typed_of_arises (h : Arises ok s) {c : CellId} (hc : s.store.Live c) {n : VertexKey}
    {a : StoredArc} (stored : (n, a) ∈ (s.store.data c).out.entries ∨
      (n, a) ∈ (s.store.data c).inbound.entries) :
    a.kind.allows a.value = true ∧ a.kind.Typed a.value ∧
      (a.kind = .similarity → ∃ r, a.value = .real r ∧
        (Binary.ofInt (-1) : Binary64).le r.convert = true ∧
        r.convert.le (Binary.ofInt 1 : Binary64) = true) ∧
      (a.kind = .distance → ∃ r, a.value = .real r ∧
        (Binary.zero : Binary64).le r.convert = true) := by
  have hallows : a.kind.allows a.value = true := by
    rcases stored with hout | hin
    · have hm : (⟨s.store.keyOf c, n, a⟩ : PlacedArc) ∈ s.store.arcs :=
        (mem_arcs_iff h.reach.sound.store.placed).2 ⟨c, hc, rfl, ArcIndex.mem_entries_iff.1 hout⟩
      exact h.lawful.valued _ hm
    · exact h.typedInward c n a (ArcIndex.mem_entries_iff.1 hin)
  have htyped := ArcKind.allows_iff_typed.1 hallows
  have hsimilarity : ArcKind.similarity.bounds = (.ofInt (-1), .ofInt 1) := rfl
  have hdistance : ArcKind.distance.bounds = (.zero, ArcKind.largestReal) := rfl
  refine ⟨hallows, htyped, fun hk => ?_, fun hk => ?_⟩
  · rw [hk] at htyped
    obtain ⟨r, hr⟩ := htyped.exists_real rfl
    have hbounded := htyped.bounded
    simp only [hr, hsimilarity, ArcValue.toNumber] at hbounded
    exact ⟨r, hr, hbounded⟩
  · rw [hk] at htyped
    obtain ⟨r, hr⟩ := htyped.exists_real rfl
    have hbounded := htyped.bounded
    simp only [hr, hdistance, ArcValue.toNumber] at hbounded
    exact ⟨r, hr, hbounded.1⟩

/-- A graph that is restored from a snapshot in which one similarity is listed twice, with
both ends of its domain. -/
def twoEnded : Session :=
  (Operation.ask (.restore
    { name := "graph"
      vertices := [{ id := "a" }, { id := "b" }]
      arcs := [⟨"a", "r", .similarity, .real (.ofInt 1), false, "b"⟩,
        ⟨"a", "r", .similarity, .real (.ofInt (-1)), false, "b"⟩] })).after ⟨⟨"m"⟩, 5⟩ (.new {} .new)

/-- The sides have one end each, and both are values of a similarity. -/
theorem typed_twoEnded :
    (.of "b", ⟨0, .similarity, .real (.ofInt (-1)), false⟩) ∈ (twoEnded.store.data 0).out.entries ∧
      ArcKind.similarity.Typed (.real (.ofInt (-1))) ∧
      (.of "a", ⟨0, .similarity, .real (.ofInt 1), false⟩) ∈
        (twoEnded.store.data 1).inbound.entries ∧
      ArcKind.similarity.Typed (.real (.ofInt 1)) := by
  have harises : Arises (fun _ => True) twoEnded :=
    (Arises.start {} 65535 65535 .refl).step _ _ trivial
  have hinitial : twoEnded.store.Live 0 := by
    constructor <;> decide +kernel
  have hterminal : twoEnded.store.Live 1 := by
    constructor <;> decide +kernel
  have hout : (VertexKey.of "b", (⟨0, .similarity, .real (.ofInt (-1)), false⟩ : StoredArc)) ∈
      (twoEnded.store.data 0).out.entries := by
    decide +kernel
  have hin : (VertexKey.of "a", (⟨0, .similarity, .real (.ofInt 1), false⟩ : StoredArc)) ∈
      (twoEnded.store.data 1).inbound.entries := by
    decide +kernel
  exact ⟨hout, (typed_of_arises harises hinitial (.inl hout)).2.1, hin,
    (typed_of_arises harises hterminal (.inr hin)).2.1⟩

end Arcbase
