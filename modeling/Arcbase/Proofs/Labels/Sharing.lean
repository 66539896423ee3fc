import Arcbase.Proofs.Labels.Room
set_option autoImplicit false

/-!
# Sharing label tables

Whoever shares label tables may access them at any moment: look a label or a code up, or encode
a label.  In whatever order that is done, labels and codes stay partners one to one, the codes
in use are the first ones (`LabelTable.Exact`), and no pair is ever broken up
(`Labels.StableSince`).  Encoding fails just for a label without a code when the table is full,
and then changes nothing (`Labels.EncodesExactly`).

Encoding takes two accesses: a look-up, and where that finds nothing an assignment at a later
moment.  What others do in between does not matter (`Labels.encodeMeanwhile`).
-/

namespace Arcbase

/-! ## One table -/

namespace LabelTable

variable {t t' : LabelTable} {label : String} {code : LabelCode}

/-- Labels and codes stand for each other one to one, and the codes in use are those below the
number of labels, which is within both limits. -/
structure Exact (t : LabelTable) : Prop where
  partners : ∀ label code, t.lookup? label = some code ↔ t.decode? code = some label
  labels_apart : ∀ label label' code, t.lookup? label = some code → t.lookup? label' = some code →
    label = label'
  codes_apart : ∀ code code' label, t.decode? code = some label → t.decode? code' = some label →
    code = code'
  assigned : ∀ n, (∃ label code, t.lookup? label = some code ∧ code.toNat = n) ↔ n < t.size
  capacity : t.size ≤ t.capacity
  codes : t.size ≤ 65536

theorem Valid.exact (hv : t.Valid) (hs : t.Sized) : t.Exact where
  partners := hv
  labels_apart label label' code h h' := by
    rw [hv] at h h'
    exact Option.some.inj (h.symm.trans h')
  codes_apart _ _ _ h h' := hv.eq_of_decode? h h'
  assigned n := by
    constructor
    · rintro ⟨label, code, hcode, rfl⟩
      exact lt_size_of_decode? ((hv label code).1 hcode)
    · intro hn
      have hcode : (UInt16.ofNat n).toNat = n :=
        UInt16.toNat_ofNat_of_lt' (Nat.lt_of_lt_of_le hn hs.codes)
      obtain ⟨label, hlabel⟩ : ∃ label, t.labels[n]? = some label :=
        ⟨_, Array.getElem?_eq_getElem hn⟩
      refine ⟨label, UInt16.ofNat n, (hv _ _).2 ?_, hcode⟩
      rw [decode?, hcode, hlabel]
  capacity := hs.capacity
  codes := hs.codes

theorem isFull_iff : t.isFull = true ↔ t.capacity ≤ t.size ∨ 65536 ≤ t.size := by
  rw [isFull, Bool.or_eq_true, decide_eq_true_iff, decide_eq_true_iff]
  rfl

theorem encode_of_full (hnew : t.lookup? label = none) (hfull : t.isFull = true) :
    t.encode label = (none, t) := by
  rw [encode, hnew]
  exact if_pos hfull

theorem encode_of_room (hnew : t.lookup? label = none) (hroom : t.isFull = false) :
    t.encode label = (some (UInt16.ofNat t.size), t.add label) := by
  rw [encode, hnew]
  exact if_neg (Bool.eq_false_iff.1 hroom)

theorem capacity_encode (t : LabelTable) (label : String) :
    (t.encode label).2.capacity = t.capacity := by
  rcases encode_cases t label with he | ⟨_, _, he⟩ <;> rw [he]
  rfl

/-- Whether a label gets a code is told by what is there. -/
theorem encode_eq_none_iff :
    (t.encode label).1 = none ↔ t.lookup? label = none ∧ t.isFull = true := by
  cases hfound : t.lookup? label with
  | some code => simp [encode_of_lookup? hfound]
  | none =>
    cases hfull : t.isFull with
    | true => simp [encode_of_full hfound hfull]
    | false => simp [encode_of_room hfound hfull]

end LabelTable

/-! ## Both tables -/

/-- The sorts of labels, each with a table of its own. -/
inductive LabelSort where
  | relationship
  | type
  deriving DecidableEq, Repr

/-- The error of a label for which there is no room. -/
def LabelSort.full : LabelSort → String → Error
  | relationship, label => .query (.relationshipCapacity label)
  | type, label => .vertex (.typeCapacity label)

/-- What may be done to label tables at a moment, by whichever graph. -/
inductive LabelAccess where
  | lookup (sort : LabelSort) (label : String)
  | decode (sort : LabelSort) (code : LabelCode)
  | encode (sort : LabelSort) (label : String)
  deriving DecidableEq, Repr

namespace Labels

variable {l l' seen now : Labels} {sort other : LabelSort} {label : String} {code : LabelCode}

def table (l : Labels) : LabelSort → LabelTable
  | .relationship => l.relationships
  | .type => l.types

/-- The code of a label of either sort, a new one if need be. -/
def encode (l : Labels) : LabelSort → String → Except Error LabelCode × Labels
  | .relationship => l.encodeRelationship
  | .type => l.encodeType

end Labels

namespace LabelAccess

def sort : LabelAccess → LabelSort
  | lookup sort _ | decode sort _ | encode sort _ => sort

/-- Whether a label may get a code. -/
def assigns : LabelAccess → Bool
  | encode .. => true
  | _ => false

/-- The tables after an access. -/
def after (l : Labels) : LabelAccess → Labels
  | lookup .. | decode .. => l
  | encode sort label => (l.encode sort label).2

end LabelAccess

namespace Labels

variable {l l' seen now : Labels} {sort other : LabelSort} {label : String} {code : LabelCode}

/-- The tables after accesses, one after the other. -/
def afterAll (l : Labels) (accesses : List LabelAccess) : Labels :=
  accesses.foldl LabelAccess.after l

theorem table_encode (l : Labels) (sort : LabelSort) (label : String) :
    (l.encode sort label).2.table sort = ((l.table sort).encode label).2 := by
  cases sort <;> rfl

/-- The table of the other sort is left alone. -/
theorem table_encode_of_ne (h : other ≠ sort) : (l.encode sort label).2.table other =
    l.table other := by
  cases sort <;> cases other <;> first | rfl | exact absurd rfl h

theorem ext_table (h : ∀ sort, l.table sort = l'.table sort) : l = l' := by
  have hrelationships : l.relationships = l'.relationships := h .relationship
  have htypes : l.types = l'.types := h .type
  cases l
  cases l'
  rw [Labels.mk.injEq]
  exact ⟨hrelationships, htypes⟩

/-- If a table stays as it is, then both do. -/
theorem encode_eq_self (h : ((l.table sort).encode label).2 = l.table sort) :
    (l.encode sort label).2 = l := by
  refine ext_table fun other => ?_
  by_cases hsame : other = sort
  · rw [hsame, table_encode, h]
  · exact table_encode_of_ne hsame

theorem encode_fst (l : Labels) (sort : LabelSort) (label : String) : (l.encode sort label).1 =
    ((l.table sort).encode label).1.elim (.error (sort.full label)) .ok := by
  cases sort <;> rfl

theorem encode_eq_ok_iff :
    (l.encode sort label).1 = .ok code ↔ ((l.table sort).encode label).1 = some code := by
  rw [encode_fst]
  cases ((l.table sort).encode label).1 with
  | none => exact ⟨nofun, nofun⟩
  | some c =>
    exact ⟨fun h => congrArg some (Except.ok.inj h), fun h => congrArg _ (Option.some.inj h)⟩

theorem encode_eq_error_iff {e : Error} : (l.encode sort label).1 = .error e ↔
    ((l.table sort).encode label).1 = none ∧ sort.full label = e := by
  rw [encode_fst]
  cases ((l.table sort).encode label).1 with
  | none => exact ⟨fun h => ⟨rfl, Except.error.inj h⟩, fun h => congrArg _ h.2⟩
  | some c => exact ⟨nofun, nofun⟩

/-! ## Encoding -/

/-- An encoding answers with the code of the label: the one it has, or else the next one if
there is room.  If there is none it fails, and nothing changes.  The table of the other sort
never changes. -/
structure EncodesExactly (l : Labels) : Prop where
  round : ∀ sort label code, (l.encode sort label).1 = .ok code →
    ((l.encode sort label).2.table sort).decode? code = some label
  known : ∀ sort label code, (l.table sort).lookup? label = some code →
    l.encode sort label = (.ok code, l)
  fresh : ∀ sort label, (l.table sort).lookup? label = none →
    (l.table sort).size < (l.table sort).capacity → (l.table sort).size < 65536 →
      ∃ code, (l.encode sort label).1 = .ok code ∧ code.toNat = (l.table sort).size ∧
        ((l.encode sort label).2.table sort).size = (l.table sort).size + 1
  refused : ∀ sort label e, (l.encode sort label).1 = .error e ↔
    (l.table sort).lookup? label = none ∧
      ((l.table sort).capacity ≤ (l.table sort).size ∨ 65536 ≤ (l.table sort).size) ∧
      sort.full label = e
  unchanged : ∀ sort label e, (l.encode sort label).1 = .error e → (l.encode sort label).2 = l
  others : ∀ sort other label, other ≠ sort → (l.encode sort label).2.table other = l.table other

theorem encode_of_lookup? (h : (l.table sort).lookup? label = some code) :
    l.encode sort label = (.ok code, l) := by
  have he := LabelTable.encode_of_lookup? h
  exact Prod.ext (encode_eq_ok_iff.2 (congrArg Prod.fst he)) (encode_eq_self (congrArg Prod.snd he))

theorem Valid.table (h : l.Valid) (sort : LabelSort) : (l.table sort).Valid := by
  cases sort with
  | relationship => exact h.relationships
  | type => exact h.types

theorem Sized.table (h : l.Sized) (sort : LabelSort) : (l.table sort).Sized := by
  cases sort with
  | relationship => exact h.relationships
  | type => exact h.types

theorem Valid.encodesExactly (hv : l.Valid) : l.EncodesExactly where
  round sort label code he := by
    rw [table_encode]
    exact LabelTable.decode?_of_encode (hv.table sort) (encode_eq_ok_iff.1 he)
  known _ _ _ h := encode_of_lookup? h
  fresh sort label hnew hcapacity hcodes := by
    have hroom : (l.table sort).isFull = false := by
      rw [← Bool.not_eq_true, LabelTable.isFull_iff]
      omega
    have he := LabelTable.encode_of_room hnew hroom
    refine ⟨_, encode_eq_ok_iff.2 (congrArg Prod.fst he), LabelTable.toNat_newCode hcodes, ?_⟩
    rw [table_encode, he]
    exact LabelTable.size_add _ label
  refused sort label e := by
    rw [encode_eq_error_iff, LabelTable.encode_eq_none_iff, LabelTable.isFull_iff, and_assoc]
  unchanged sort label e he := by
    obtain ⟨hnew, hfull⟩ := LabelTable.encode_eq_none_iff.1 (encode_eq_error_iff.1 he).1
    exact encode_eq_self (congrArg Prod.snd (LabelTable.encode_of_full hnew hfull))
  others _ _ _ := table_encode_of_ne

/-! ## Accesses -/

theorem Grows.encode (h : l.Grows l') (sort : LabelSort) (label : String) :
    l.Grows (l'.encode sort label).2 := by
  cases sort with
  | relationship => exact h.relationship label
  | type => exact h.type label

theorem grows_after (l : Labels) (a : LabelAccess) : l.Grows (a.after l) := by
  cases a with
  | lookup => exact .refl
  | decode => exact .refl
  | encode sort label => exact Grows.refl.encode sort label

/-- Tables to which labels have been added have been accessed, and that is all. -/
theorem Grows.exists_accesses (h : l.Grows l') : ∃ accesses, l.afterAll accesses = l' := by
  have hlast : ∀ (accesses : List LabelAccess) (a : LabelAccess),
      l.afterAll (accesses ++ [a]) = a.after (l.afterAll accesses) := fun accesses a =>
    List.foldl_append ..
  induction h with
  | refl => exact ⟨[], rfl⟩
  | relationship _ label ih =>
    obtain ⟨accesses, rfl⟩ := ih
    exact ⟨accesses ++ [.encode .relationship label], hlast _ _⟩
  | type _ label ih =>
    obtain ⟨accesses, rfl⟩ := ih
    exact ⟨accesses ++ [.encode .type label], hlast _ _⟩

theorem Grows.capacity (h : l.Grows l') (sort : LabelSort) :
    (l'.table sort).capacity = (l.table sort).capacity := by
  have hencode : ∀ (l' : Labels) (sort' : LabelSort) (label : String),
      ((l'.encode sort' label).2.table sort).capacity = (l'.table sort).capacity := by
    intro l' sort' label
    by_cases hsame : sort = sort'
    · rw [hsame, table_encode, LabelTable.capacity_encode]
    · rw [table_encode_of_ne hsame]
  induction h with
  | refl => rfl
  | relationship _ label ih => exact (hencode _ .relationship label).trans ih
  | type _ label ih => exact (hencode _ .type label).trans ih

theorem Grows.keeps_table (h : l.Grows l') (sort : LabelSort) :
    (l.table sort).Keeps (l'.table sort) := by
  cases sort with
  | relationship => exact h.keeps
  | type => exact h.types_keeps

/-- Looking up assigns nothing, so that the other accesses alone come to the same. -/
theorem afterAll_filter_assigns (l : Labels) (accesses : List LabelAccess) :
    l.afterAll (accesses.filter LabelAccess.assigns) = l.afterAll accesses := by
  induction accesses generalizing l with
  | nil => rfl
  | cons a rest ih => cases a <;> exact ih _

/-- An access does to a table what it does to the same table beside another one. -/
theorem table_after_congr (a : LabelAccess) (h : l.table sort = l'.table sort) :
    (a.after l).table sort = (a.after l').table sort := by
  cases a with
  | lookup => exact h
  | decode => exact h
  | encode sort' label =>
    by_cases hsort : sort = sort'
    · subst hsort
      have hencode : ((l.table sort).encode label).2 = ((l'.table sort).encode label).2 := by
        rw [h]
      simpa only [LabelAccess.after, table_encode] using hencode
    · simpa only [LabelAccess.after, table_encode_of_ne hsort] using h

theorem table_after_of_ne {a : LabelAccess} (h : a.sort ≠ sort) (l : Labels) :
    (a.after l).table sort = l.table sort := by
  cases a with
  | lookup => rfl
  | decode => rfl
  | encode sort' label => exact table_encode_of_ne h.symm

/-- What becomes of a table depends on the accesses of its sort alone. -/
theorem table_afterAll_filter (accesses : List LabelAccess) (h : l.table sort = l'.table sort) :
    (l.afterAll (accesses.filter (·.sort = sort))).table sort =
      (l'.afterAll accesses).table sort := by
  induction accesses generalizing l l' with
  | nil => exact h
  | cons a rest ih =>
    by_cases hsort : a.sort = sort
    · rw [List.filter_cons_of_pos (by simpa using hsort)]
      exact ih (table_after_congr a h)
    · rw [List.filter_cons_of_neg (by simpa using hsort)]
      exact ih (h.trans (table_after_of_ne hsort l').symm)

/-! ## At a later moment -/

/-- Encodes a label that was looked up when the tables were `seen`; where that found nothing it
is assigned now. -/
def encodeMeanwhile (seen now : Labels) (sort : LabelSort) (label : String) :
    Except Error LabelCode × Labels :=
  match (seen.table sort).lookup? label with
  | some code => (.ok code, now)
  | none => now.encode sort label

/-- What holds of tables now that were seen at an earlier moment. -/
structure StableSince (now seen : Labels) : Prop where
  /-- The tables have been accessed in between, and that is all. -/
  reached : ∃ accesses, seen.afterAll accesses = now
  exact : ∀ sort, (now.table sort).Exact
  capacity : ∀ sort, (now.table sort).capacity = (seen.table sort).capacity
  codes : ∀ sort label code, (seen.table sort).lookup? label = some code →
    (now.table sort).lookup? label = some code
  labels : ∀ sort code label, (seen.table sort).decode? code = some label →
    (now.table sort).decode? code = some label
  encodes : now.EncodesExactly
  /-- A label that was looked up at the earlier moment is encoded as if all were done now. -/
  meanwhile : ∀ sort label, seen.encodeMeanwhile now sort label = now.encode sort label
  /-- Looking up assigns nothing: without it all comes to the same. -/
  looking : ∀ accesses, now.afterAll (accesses.filter LabelAccess.assigns) = now.afterAll accesses
  /-- What becomes of a table depends on the accesses of its sort alone. -/
  apart : ∀ sort accesses, (now.afterAll (accesses.filter (·.sort = sort))).table sort =
    (now.afterAll accesses).table sort

theorem Grows.stableSince (h : seen.Grows now) (hv : seen.Valid) (hs : seen.Sized) :
    now.StableSince seen := by
  have hv' := hv.grows h
  have hs' := hs.grows h
  have hcodes : ∀ sort label code, (seen.table sort).lookup? label = some code →
      (now.table sort).lookup? label = some code := by
    intro sort label code hcode
    rw [hv'.table sort]
    exact h.keeps_table sort code label ((hv.table sort label code).1 hcode)
  refine ⟨h.exists_accesses, fun sort => (hv'.table sort).exact (hs'.table sort), h.capacity,
    hcodes, h.keeps_table, hv'.encodesExactly, fun sort label => ?_, afterAll_filter_assigns now,
    fun sort accesses => table_afterAll_filter accesses rfl⟩
  cases hfound : (seen.table sort).lookup? label with
  | some code => rw [encodeMeanwhile, hfound, encode_of_lookup? (hcodes sort label code hfound)]
  | none => rw [encodeMeanwhile, hfound]

end Labels

end Arcbase
