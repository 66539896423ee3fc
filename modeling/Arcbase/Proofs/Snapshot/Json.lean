import Arcbase.Proofs.Property.Json
import Arcbase.Snapshot.Json
set_option autoImplicit false

/-!
# Snapshots are read back

The text of a snapshot is read as that snapshot, if all binary numbers in it are finite and
no property nests too deep; if not, it is not read at all (`Snapshot.parse_exportText`).
-/

namespace Arcbase

open Json (Reader Members Exact Faithful faithfulItems_iff)

/-! ## Arcs -/

theorem ArcKind.read_toJson (k : ArcKind) (depth : Nat) : read depth k.toJson = some k := by
  cases k <;> rfl

namespace ArcValue

/-- Whether a value is finite, if it is a binary number. -/
def isFinite : ArcValue → Bool
  | real r => r.isFinite
  | _ => true

/-- Whether a finite binary number is written as text that reads back. -/
def ReadsBack : ArcValue → Prop
  | real r => r.isFinite = true → Exact .json32 Json.binary32Of? r
  | _ => True

theorem faithful_toJson {v : ArcValue} (h : v.ReadsBack) : Faithful v.toJson := by
  cases v with
  | empty => exact ⟨trivial, trivial⟩
  | integer i => exact ⟨trivial, Json.faithful_ofInt i.toInt, trivial⟩
  | unsigned u => exact ⟨trivial, Json.faithful_ofNat u.toNat, trivial⟩
  | real r => exact ⟨trivial, Json.faithful_ofBinary h, trivial⟩

/-- A value is read back exactly if it is finite. -/
theorem read_toJson {v : ArcValue} (h : v.ReadsBack) (depth : Nat) :
    read (depth + 1) v.toJson = if v.isFinite then some v else none := by
  cases v with
  | empty =>
    simp only [read, toJson, number?, Json.tagged?_single, Option.bind_eq_bind, Option.bind_some]
    rfl
  | integer i =>
    have hread : read (depth + 1) (integer i).toJson =
        (Reader.int32 depth (.ofInt i.toInt)).map integer := by
      simp only [read, toJson, number?, Json.tagged?_pair, Option.bind_eq_bind, Option.bind_some]
      rfl
    rw [hread, Reader.int32_ofInt]
    rfl
  | unsigned u =>
    have hread : read (depth + 1) (unsigned u).toJson =
        (Reader.uint32 depth (.ofNat u.toNat)).map unsigned := by
      simp only [read, toJson, number?, Json.tagged?_pair, Option.bind_eq_bind, Option.bind_some]
      rfl
    rw [hread, Reader.uint32_ofNat]
    rfl
  | real r =>
    have hread : read (depth + 1) (real r).toJson =
        (Reader.binary32 depth (.ofBinary .json32 r)).map real := by
      simp only [read, toJson, number?, Json.tagged?_pair, Option.bind_eq_bind, Option.bind_some]
      rfl
    rw [hread, Reader.binary32_ofBinary h, isFinite]
    split <;> rfl

end ArcValue

namespace ArcSnapshot

theorem faithful_toJson {a : ArcSnapshot} (h : a.value.ReadsBack) : Faithful a.toJson :=
  ⟨trivial, trivial, trivial, ArcValue.faithful_toJson h, trivial, trivial, trivial⟩

theorem read_toJson {a : ArcSnapshot} (h : a.value.ReadsBack) (depth : Nat) :
    read (depth + 2) a.toJson = if a.value.isFinite then some a else none := by
  rw [read, toJson, Reader.record_record _ ?names ?nodup]
  case names => rfl
  case nodup => decide
  simp only [Members.required, Members.withDefault, Members.get?, BEq.rfl,
    List.find?_cons_of_pos, List.find?_cons_of_neg, String.reduceBEq, Bool.false_eq_true,
    not_false_eq_true, Option.map_some, Option.bind_eq_bind, Option.bind_some, Option.pure_def,
    Reader.text_text, Reader.bool_bool, ArcKind.read_toJson, ArcValue.read_toJson h]
  split <;> rfl

end ArcSnapshot

/-! ## Vertices -/

theorem Manifestation.read_toJson (m : Manifestation) (depth : Nat) :
    read depth m.toJson = some m := by
  cases m <;> rfl

namespace VertexSnapshot

/-- Whether all values of a vertex are written as text that reads back. -/
structure ReadsBack (v : VertexSnapshot) : Prop where
  properties : v.properties.ReadsBack
  vector : ∀ l, v.vector = some l → ∀ x ∈ l, x.isFinite = true → Exact .json32 Json.binary32Of? x

/-- Whether all properties of a vertex can be read so many containers further down, and all
elements of its vector are finite. -/
def readable (depth : Nat) (v : VertexSnapshot) : Bool :=
  v.properties.readable depth && v.vector.all fun l => l.all Binary.isFinite

variable {v : VertexSnapshot}

theorem faithful_vector {o : Option (List Binary32)}
    (h : ∀ l, o = some l → ∀ x ∈ l, x.isFinite = true → Exact .json32 Json.binary32Of? x) :
    Faithful (Json.orNull (fun l => .array (l.map (Json.ofBinary .json32))) o) := by
  cases o with
  | none => trivial
  | some l =>
    refine faithfulItems_iff.2 fun j hj => ?_
    obtain ⟨x, hx, rfl⟩ := List.mem_map.1 hj
    exact Json.faithful_ofBinary (h l rfl x hx)

theorem faithful_toJson (h : v.ReadsBack) : Faithful v.toJson := by
  have htype : Faithful (Json.orNull Json.text v.type) := by cases v.type <;> trivial
  have hexpires : Faithful (Json.orNull (fun t => .ofNat t.toNat) v.expires) := by
    cases v.expires with
    | none => trivial
    | some t => exact Json.faithful_ofNat t.toNat
  exact ⟨trivial, htype, trivial, Json.faithful_ofNat _, Json.faithful_ofNat _, hexpires,
    PropertyMap.faithful_toJson h.properties, faithful_vector h.vector, trivial⟩

theorem read_type (o : Option String) (depth : Nat) :
    Reader.text.nullable depth (Json.orNull Json.text o) = some o := by
  cases o <;> rfl

theorem read_expires (o : Option UInt32) (depth : Nat) :
    Reader.uint32.nullable depth (Json.orNull (fun t => .ofNat t.toNat) o) = some o := by
  have hread : Reader.uint32.nullable depth (Json.orNull (fun t => .ofNat t.toNat) o) =
      if o.all fun _ => true then some o else none :=
    Reader.nullable_orNull (fun _ => nofun) fun t _ => Reader.uint32_ofNat t
  rw [hread]
  cases o <;> rfl

theorem read_vector {o : Option (List Binary32)}
    (h : ∀ l, o = some l → ∀ x ∈ l, x.isFinite = true → Exact .json32 Json.binary32Of? x)
    (depth : Nat) :
    (Reader.list Reader.binary32).nullable (depth + 1)
        (Json.orNull (fun l => .array (l.map (Json.ofBinary .json32))) o) =
      if o.all fun l => l.all Binary.isFinite then some o else none := by
  refine Reader.nullable_orNull (fun _ => nofun) fun l hl => ?_
  rw [Reader.list_array]
  exact Json.mapM_guarded fun x hx => Reader.binary32_ofBinary (h l hl x hx)

/-- A vertex is read back exactly if its properties and its vector are. -/
theorem read_toJson (h : v.ReadsBack) (depth : Nat) :
    read (depth + 2) v.toJson = if v.readable depth then some v else none := by
  rw [read, toJson, Reader.record_record _ ?names ?nodup]
  case names => rfl
  case nodup => decide
  simp only [Members.required, Members.optional, Members.withDefault, Members.get?, BEq.rfl,
    List.find?_cons_of_pos, List.find?_cons_of_neg, String.reduceBEq, Bool.false_eq_true,
    not_false_eq_true, Option.map_some, Option.bind_eq_bind, Option.bind_some, Option.pure_def,
    Reader.text_text, read_type, Manifestation.read_toJson, Reader.uint32_ofNat, read_expires,
    PropertyMap.read_toJson h.properties, read_vector h.vector]
  exact Json.bind_guarded (v.properties.readable depth) (v.vector.all _) _ _
    fun properties vector => { v with properties, vector }

end VertexSnapshot

/-! ## Whole graphs -/

namespace Snapshot

/-- Whether all values of a graph are written as text that reads back. -/
structure ReadsBack (s : Snapshot) : Prop where
  vertices : ∀ v ∈ s.vertices, v.ReadsBack
  arcs : ∀ a ∈ s.arcs, a.value.ReadsBack

/-- Whether all binary numbers of a graph are finite, and no property nests deeper than a
reader goes inside the properties of a vertex. -/
def readable (s : Snapshot) : Bool :=
  s.vertices.all (·.readable (Json.nestingLimit - 4)) && s.arcs.all (·.value.isFinite)

variable {s : Snapshot}

theorem faithful_toJson (h : s.ReadsBack) : Faithful s.toJson := by
  refine ⟨trivial, faithfulItems_iff.2 fun j hj => ?_, faithfulItems_iff.2 fun j hj => ?_, trivial⟩
  · obtain ⟨v, hv, rfl⟩ := List.mem_map.1 hj
    exact VertexSnapshot.faithful_toJson (h.vertices v hv)
  · obtain ⟨a, ha, rfl⟩ := List.mem_map.1 hj
    exact ArcSnapshot.faithful_toJson (h.arcs a ha)

/-- A graph is read back exactly if all its vertices and arcs are. -/
theorem read_toJson (h : s.ReadsBack) :
    read Json.nestingLimit s.toJson = if s.readable then some s else none := by
  have hvertices : Reader.list VertexSnapshot.read (Json.nestingLimit - 1)
      (.array (s.vertices.map VertexSnapshot.toJson)) =
        if s.vertices.all (·.readable (Json.nestingLimit - 4)) then some s.vertices else none :=
    Json.mapM_guarded fun v hv => VertexSnapshot.read_toJson (h.vertices v hv) _
  have harcs : Reader.list ArcSnapshot.read (Json.nestingLimit - 1)
      (.array (s.arcs.map ArcSnapshot.toJson)) =
        if s.arcs.all (·.value.isFinite) then some s.arcs else none :=
    Json.mapM_guarded fun a ha => ArcSnapshot.read_toJson (h.arcs a ha) _
  rw [read, toJson, show Json.nestingLimit = Json.nestingLimit - 1 + 1 from rfl,
    Reader.record_record _ ?names ?nodup]
  case names => rfl
  case nodup => decide
  simp only [Members.required, Members.get?, BEq.rfl,
    List.find?_cons_of_pos, List.find?_cons_of_neg, String.reduceBEq, Bool.false_eq_true,
    not_false_eq_true, Option.map_some, Option.bind_eq_bind, Option.bind_some, Option.pure_def,
    Reader.text_text, hvertices, harcs]
  exact Json.bind_guarded (s.vertices.all _) (s.arcs.all _) _ _
    fun vertices arcs => { s with vertices, arcs }

/-- The text of a snapshot stands for that snapshot if all of it can be read, and for none if
not. -/
theorem parse_exportText (h : s.ReadsBack) :
    parse s.exportText = if s.readable then .ok s else .error (.data .malformed) := by
  rw [parse, exportText, Json.parse?_render (faithful_toJson h), Option.bind_some, read_toJson h]
  cases s.readable <;> rfl

end Snapshot

end Arcbase
