import Arcbase.Proofs.Labels.Room
import Arcbase.Proofs.Snapshot.Taking
set_option autoImplicit false

/-!
# Restores that succeed

A restore into an empty graph succeeds if the snapshot is one that the graph accepts
(`Snapshot.Fits`), as the snapshots of other graphs are.
-/

namespace Arcbase

/-- A snapshot that a store accepts, with the labels of tables that those of the store suit. -/
structure Snapshot.Fits (snapshot : Snapshot) (s : Store) (source : Labels) : Prop where
  named : ∀ v ∈ snapshot.vertices, s.identifierFault? v.id = none
  keyed : (snapshot.vertices.map fun v => VertexKey.of v.id).Nodup
  typed : ∀ v ∈ snapshot.vertices, ∀ label, v.type = some label →
    ∃ code, source.types.lookup? label = some code
  ends : ∀ a ∈ snapshot.arcs, (∃ v ∈ snapshot.vertices, v.id = a.initial) ∧
    ∃ v ∈ snapshot.vertices, v.id = a.terminal
  valued : ∀ a ∈ snapshot.arcs, a.kind.allows a.value = true
  unmixed : ∀ a ∈ snapshot.arcs, ∀ b ∈ snapshot.arcs,
    VertexKey.of a.terminal = .of b.terminal → a.forwardOnly = b.forwardOnly
  labelled : ∀ a ∈ snapshot.arcs, ∃ code, source.relationships.lookup? a.relationship = some code

namespace Store

/-- An identifier that one graph takes is taken by a graph that allows longer ones. -/
theorem identifierFault?_eq_none {s t : Store} {id : String}
    (hlimit : s.config.maxIdentifierLength ≤ t.config.maxIdentifierLength)
    (h : s.identifierFault? id = none) : t.identifierFault? id = none := by
  unfold identifierFault? at h ⊢
  split at h
  · cases h
  next hnonempty =>
    split at h
    · cases h
    next hshort =>
      rw [if_neg hnonempty, if_neg fun hlong => hshort (Nat.lt_of_le_of_lt hlimit hlong)]

/-- A graph that takes identifiers as long accepts the snapshot of a graph. -/
theorem fits_toSnapshot {agree : Agreement} {s : Store} (hs : s.Sound agree) (hl : s.Lawful)
    (hv : s.labels.Valid) {t : Store}
    (hlimit : s.config.maxIdentifierLength ≤ t.config.maxIdentifierLength) :
    s.toSnapshot.Fits t s.labels := by
  have hp := hs.placed
  have hvertex : ∀ v ∈ s.toSnapshot.vertices, ∃ c, s.Live c ∧ s.vertexSnapshot c = v := by
    intro v hm
    obtain ⟨c, hc, rfl⟩ := Option.map_eq_some_iff.1 ((mem_vertices_toSnapshot hp).1 hm)
    exact ⟨c, (hp.of_lookup hc).1, rfl⟩
  have harc : ∀ a ∈ s.toSnapshot.arcs, ∃ code,
      s.labels.relationships.decode? code = some a.relationship ∧
      ∃ initial, ⟨initial, .of a.terminal, a.stored code⟩ ∈ s.arcs := by
    intro a ha
    obtain ⟨i, t, code, hi, ht, hcode, hstored⟩ := exists_stored_toSnapshot hs hl.named ha
    have hm := arcAt?_mem_arcs hs (hp.of_lookup hi).1 hstored
    rw [hp.keyOf_of_lookup ht] at hm
    exact ⟨code, hcode, _, hm⟩
  have hlisted : ∀ id, s.contains id = true → ∃ v ∈ s.toSnapshot.vertices, v.id = id := by
    intro id hid
    rw [contains_eq_isSome, Option.isSome_iff_exists] at hid
    obtain ⟨v, hfound⟩ := hid
    obtain ⟨c, hc, rfl⟩ := Option.map_eq_some_iff.1 hfound
    have hsame : (s.vertexSnapshot c).id = id := (hp.of_lookup hc).2
    exact ⟨_, (mem_vertices_toSnapshot hp).2 (hsame ▸ hfound), hsame⟩
  refine ⟨fun v hm => ?_, ?_, fun v hm label hlabel => ?_, fun a ha => ?_, fun a ha => ?_,
    fun a ha b hb hkey => ?_, fun a ha => ?_⟩
  · obtain ⟨c, hc, rfl⟩ := hvertex v hm
    exact identifierFault?_eq_none hlimit (hl.wellNamed c hc.1)
  · refine (nodup_vertices_toSnapshot hp).map_on fun v hv w hw hkey => ?_
    obtain ⟨c, hc, rfl⟩ := hvertex v hv
    obtain ⟨c', hc', rfl⟩ := hvertex w hw
    have hsame : s.keyOf c = s.keyOf c' :=
      (hp.keyed c hc.1).trans (hkey.trans (hp.keyed c' hc'.1).symm)
    rw [hp.eq_of_key hc hc' hsame]
  · obtain ⟨c, hc, rfl⟩ := hvertex v hm
    obtain ⟨code, _, hcode⟩ := Option.bind_eq_some_iff.1 hlabel
    exact ⟨code, (hv.types label code).2 hcode⟩
  · obtain ⟨hi, ht⟩ := contains_of_mem_arcs_toSnapshot hs ha
    exact ⟨hlisted _ hi, hlisted _ ht⟩
  · obtain ⟨code, _, initial, hm⟩ := harc a ha
    exact hl.valued _ hm
  · obtain ⟨_, _, _, hma⟩ := harc a ha
    obtain ⟨_, _, _, hmb⟩ := harc b hb
    exact hl.exclusive _ hma _ hmb hkey
  · obtain ⟨code, hcode, _⟩ := harc a ha
    exact ⟨code, (hv.relationships _ code).2 hcode⟩

end Store

namespace Staging

/-- What a staged vertex has inbound comes from the arcs that have been staged. -/
structure Traced (arcs : List ArcSnapshot) (g : Staging) : Prop where
  regular : ∀ key cell, g.cells.get? key = some cell → cell.data.inbound.isEmpty = false →
    ∃ a ∈ arcs, VertexKey.of a.terminal = key ∧ a.forwardOnly = false
  forward : ∀ key cell, g.cells.get? key = some cell → 0 < cell.data.forwardOnlyIn →
    ∃ a ∈ arcs, VertexKey.of a.terminal = key ∧ a.forwardOnly = true

variable {g : Staging} {arcs : List ArcSnapshot} {p : CodedArc}

theorem traced_nil (h : ∀ key cell, g.cells.get? key = some cell → Store.Bare cell.data) :
    g.Traced [] := by
  refine ⟨fun key cell hcell hin => ?_, fun key cell hcell hcount => ?_⟩
  · rw [(h key cell hcell).inbound] at hin
    cases hin
  · rw [(h key cell hcell).forwardOnlyIn] at hcount
    exact absurd hcount (Nat.lt_irrefl 0)

theorem Traced.addArc (h : g.Traced arcs) (p : CodedArc) :
    (g.addArc p.arc p.code).Traced (arcs ++ [p.arc]) := by
  have hlast : p.arc ∈ arcs ++ [p.arc] := List.mem_append_right _ (List.mem_singleton_self _)
  refine ⟨fun key cell hcell hin => ?_, fun key cell hcell hcount => ?_⟩
  · rw [get?_addArc] at hcell
    obtain ⟨old, hold, rfl⟩ := Option.map_eq_some_iff.1 hcell
    dsimp only [withArc] at hin
    split at hin
    next hcase => exact ⟨p.arc, hlast, hcase.1, hcase.2.2⟩
    next =>
      obtain ⟨a, ha, hkey⟩ := h.regular key old hold hin
      exact ⟨a, List.mem_append_left _ ha, hkey⟩
  · rw [get?_addArc] at hcell
    obtain ⟨old, hold, rfl⟩ := Option.map_eq_some_iff.1 hcell
    dsimp only [withArc] at hcount
    split at hcount
    next hcase => exact ⟨p.arc, hlast, hcase.1, hcase.2.2⟩
    next =>
      obtain ⟨a, ha, hkey⟩ := h.forward key old hold hcount
      exact ⟨a, List.mem_append_left _ ha, hkey⟩

theorem contains_of_listed {vertices : List VertexSnapshot} {l : Labels}
    (h : g.Enrolled vertices l) {v : VertexSnapshot} (hv : v ∈ vertices) :
    g.contains v.id = true := by
  obtain ⟨cell, hcell, hlisting⟩ := h.listed v hv
  rw [contains, hcell, Option.any_some, beq_iff_eq]
  exact congrArg VertexSnapshot.id hlisting

/-- Nothing stands against an arc that is of the sort of those before it. -/
theorem arcFault?_eq_none (h : g.Traced arcs) {a : ArcSnapshot}
    (hi : g.contains a.initial = true) (ht : g.contains a.terminal = true)
    (hvalue : a.kind.allows a.value = true)
    (hsame : ∀ b ∈ arcs, VertexKey.of b.terminal = .of a.terminal → b.forwardOnly = a.forwardOnly) :
    g.arcFault? a = none := by
  obtain ⟨cell, hcell, _⟩ := (Option.any_eq_true ..).1 ht
  have hdata : g.data (.of a.terminal) = cell.data := by rw [Staging.data, hcell]; rfl
  have hmixed : (if a.forwardOnly then !cell.data.inbound.isEmpty
      else decide (0 < cell.data.forwardOnlyIn)) = false := by
    cases hforward : a.forwardOnly with
    | true =>
      rw [if_pos rfl, Bool.not_eq_false']
      by_contra hin
      obtain ⟨b, hb, hkey, hregular⟩ := h.regular _ cell hcell (Bool.not_eq_true _ ▸ hin)
      exact Bool.noConfusion (hregular.symm.trans ((hsame b hb hkey).trans hforward))
    | false =>
      rw [if_neg Bool.false_ne_true, decide_eq_false_iff_not]
      intro hcount
      obtain ⟨b, hb, hkey, hforwardb⟩ := h.forward _ cell hcell hcount
      exact Bool.noConfusion (hforwardb.symm.trans ((hsame b hb hkey).trans hforward))
  simp only [arcFault?, hi, ht, hvalue, hdata, Bool.not_true, Bool.false_eq_true, if_false]
  exact if_neg (Bool.eq_false_iff.1 hmixed)

end Staging

namespace Action

open Store

variable {s : Store} {snapshot : Snapshot} {source : Labels}

/-- The label tables are as good as those of the source. -/
structure Roomy (source l : Labels) : Prop where
  sized : l.Sized
  suits : l.Suits source

theorem VertexStaged.succeeds (hfits : snapshot.Fits s source) (hsource : source.Valid)
    (hsized : source.Sized) {done rest : List VertexSnapshot} {v : VertexSnapshot} {g : Staging}
    {l l' : Labels} {r : Except Error Staging} (hsplit : snapshot.vertices = done ++ v :: rest)
    (hstaged : VerticesStaged s done g l) (hroomy : Roomy source l)
    (h : VertexStaged s v g l r l') :
    Yields r (fun g' => VerticesStaged s (done ++ [v]) g' l' ∧ Roomy source l') False := by
  have henrolls := h.enrolls hstaged
  have hgrown := hroomy.sized.grows h.grows
  have hv : v ∈ snapshot.vertices := hsplit ▸ List.mem_append_right _ List.mem_cons_self
  have hencode : ∀ label, v.type = some label → (∃ code, (l.encodeType label).1 = .ok code) ∧
      (l.encodeType label).2.Suits source := by
    intro label hlabel
    obtain ⟨code, hcode⟩ := hfits.typed v hv label hlabel
    exact Labels.encodeType_of_suits hstaged.labels hroomy.sized hsource hsized hroomy.suits hcode
  cases h with
  | faulty found =>
    rw [hfits.named v hv] at found
    cases found
  | @repeated other e found =>
    have hlisted := hstaged.enrolled.only _ other found
    have hkey := (hstaged.enrolled.keyed _ other found).2
    have hnodup := hfits.keyed
    rw [hsplit, List.map_append, List.map_cons, List.nodup_append] at hnodup
    exact hnodup.2.2 _ (List.mem_map_of_mem hlisted) _ List.mem_cons_self hkey.symm
  | full wanted fault =>
    obtain ⟨code, hcode⟩ := (hencode _ wanted).1
    rw [hcode] at fault
    cases fault
  | untyped => exact ⟨henrolls, hgrown, hroomy.suits⟩
  | typed _ _ wanted _ => exact ⟨henrolls, hgrown, (hencode _ wanted).2⟩

theorem ArcStaged.succeeds (hfits : snapshot.Fits s source) (hsource : source.Valid)
    (hsized : source.Sized) {done rest : List ArcSnapshot} {a : ArcSnapshot} {g : Staging}
    {l l' : Labels} {r : Except Error Staging} (hsplit : snapshot.arcs = done ++ a :: rest)
    (hstaged : ArcsStaged s snapshot.vertices done g l) (htraced : g.Traced done)
    (hroomy : Roomy source l) (h : ArcStaged a g l r l') :
    Yields r (fun g' => ArcsStaged s snapshot.vertices (done ++ [a]) g' l' ∧
      g'.Traced (done ++ [a]) ∧ Roomy source l') False := by
  have hfiles := h.files hstaged
  have hgrown := hroomy.sized.grows h.grows
  have ha : a ∈ snapshot.arcs := hsplit ▸ List.mem_append_right _ List.mem_cons_self
  obtain ⟨code, hcode⟩ := hfits.labelled a ha
  obtain ⟨hencode, hsuits⟩ := Labels.encodeRelationship_of_suits hstaged.labels hroomy.sized
    hsource hsized hroomy.suits hcode
  cases h with
  | faulty found =>
    obtain ⟨⟨v, hv, hvi⟩, w, hw, hwt⟩ := hfits.ends a ha
    have hnone := Staging.arcFault?_eq_none htraced
      (hvi ▸ Staging.contains_of_listed hstaged.enrolled hv)
      (hwt ▸ Staging.contains_of_listed hstaged.enrolled hw) (hfits.valued a ha)
      fun b hb hkey => hfits.unmixed b (hsplit ▸ List.mem_append_left _ hb) a ha hkey
    rw [hnone] at found
    cases found
  | full fault =>
    obtain ⟨code', hcode'⟩ := hencode
    rw [hcode'] at fault
    cases fault
  | @coded code' _ _ => exact ⟨hfiles, htraced.addArc ⟨a, code'⟩, hgrown, hsuits⟩

/-- A snapshot that an empty graph accepts is restored. -/
theorem restore_isOk (hfits : snapshot.Fits s source) (hsource : source.Valid)
    (hsized : source.Sized) (hlabels : s.labels.Valid) (hroomy : Roomy source s.labels)
    (hempty : s.order = 0) (hwritable : s.locks.readonly = false) :
    ((restore snapshot).run s).1 = .ok () := by
  have hkept : Kept s snapshot
      (fun done g l => VerticesStaged s done g l ∧ Roomy source l)
      (fun done g l => ArcsStaged s snapshot.vertices done g l ∧ g.Traced done ∧ Roomy source l)
      False :=
    { start := ⟨(kept_staged snapshot hlabels).start, hroomy⟩
      vertex := fun _ _ _ _ _ _ _ hsplit hv h =>
        h.succeeds hfits hsource hsized hsplit hv.1 hv.2
      middle := fun _ _ h => ⟨VerticesStaged.arcsStaged h.1, Staging.traced_nil h.1.bare, h.2⟩
      arc := fun _ _ _ _ _ _ _ hsplit ha h =>
        h.succeeds hfits hsource hsized hsplit ha.1 ha.2.1 ha.2.2 }
  rcases fill_restore hkept rfl with ⟨_, hcause, _⟩ | ⟨hok, _⟩
  · rcases hcause with hfalse | hreadonly | hfull
    · exact hfalse.elim
    · exact Bool.noConfusion (hwritable.symm.trans hreadonly)
    · exact absurd (hempty ▸ hfull) (Nat.lt_irrefl 0)
  · exact hok

end Action

end Arcbase
