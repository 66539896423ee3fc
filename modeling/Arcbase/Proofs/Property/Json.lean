import Arcbase.Property.Json
import Arcbase.Proofs.Json.Reading
set_option autoImplicit false

/-!
# Property values are read back

A property value is read back as it was written, if all floats in it are finite and it nests
no more containers than the reader takes; if not, it is not read at all
(`PropertyValue.read_toJson`).  The same goes for the properties of a vertex
(`PropertyMap.read_toJson`).
-/

namespace Arcbase

open Json (Reader Exact Faithful FaithfulItems faithfulItems_iff faithfulMembers_iff)

namespace PropertyValue

/-! ## Which values can be read -/

mutual

/-- Whether all floats in a value are finite. -/
def isFinite : PropertyValue → Bool
  | float x => x.isFinite
  | list l => allFinite l
  | _ => true

def allFinite : List PropertyValue → Bool
  | [] => true
  | v :: rest => v.isFinite && allFinite rest

end

mutual

/-- How many containers a value is written in, one inside the other. -/
def nesting : PropertyValue → Nat
  | bytes _ => 2
  | list l => nestingOfAll l + 2
  | _ => 1

def nestingOfAll : List PropertyValue → Nat
  | [] => 0
  | v :: rest => max v.nesting (nestingOfAll rest)

end

mutual

/-- Whether the finite floats and the instants in a value are written as text that reads
back. -/
def ReadsBack : PropertyValue → Prop
  | float x => x.isFinite = true → Exact .json64 Json.binary64Of? x
  | instant t => Time.Instant.parse? t.format = some t
  | list l => AllReadBack l
  | _ => True

def AllReadBack : List PropertyValue → Prop
  | [] => True
  | v :: rest => v.ReadsBack ∧ AllReadBack rest

end

theorem toJsons_eq_map (l : List PropertyValue) : toJson.toJsons l = l.map toJson := by
  induction l with
  | nil => rfl
  | cons v rest ih => rw [toJson.toJsons, ih, List.map_cons]

/-! ## Writing -/

theorem faithful_tagged {form : Form} {content : Json} (h : Faithful content) :
    Faithful (tagged form content) := ⟨trivial, h, trivial⟩

mutual

theorem faithful_toJson : ∀ (v : PropertyValue), v.ReadsBack → Faithful v.toJson
  | null, _ => ⟨trivial, trivial⟩
  | bool _, _ => faithful_tagged trivial
  | int i, _ => faithful_tagged (Json.faithful_ofInt i.toInt)
  | float _, h => faithful_tagged (Json.faithful_ofBinary h)
  | string _, _ => faithful_tagged trivial
  | bytes b, _ => faithful_tagged (faithfulItems_iff.2 fun _ hm => by
      obtain ⟨byte, _, rfl⟩ := List.mem_map.1 hm
      exact Json.faithful_ofNat byte.toNat)
  | list l, h => faithful_tagged (faithful_toJsons l h)
  | instant _, _ => faithful_tagged trivial

theorem faithful_toJsons : ∀ (l : List PropertyValue), AllReadBack l →
    FaithfulItems (toJson.toJsons l)
  | [], _ => trivial
  | v :: rest, h => ⟨faithful_toJson v h.1, faithful_toJsons rest h.2⟩

end

/-! ## Reading -/

theorem form?_name (form : Form) (content : Option Json) (held : Bool) (depth : Nat) :
    (⟨.tagFirst, .text form.name, content⟩ : Json.Tagged).form? held Form.name Form.all depth =
      some form := by
  cases form <;> rfl

/-- The reader of the items of a list that is not held. -/
def itemReader : Nat → Reader PropertyValue
  | 0 => fun _ _ => none
  | below + 1 => fun _ => readFrom false below

theorem read_tagged (form : Form) (content : Json) (depth : Nat) :
    read (depth + 1) (tagged form content) =
      readContent (itemReader depth) depth form ⟨.tagFirst, .text form.name, some content⟩ := by
  cases depth <;>
    simp only [read, readFrom, tagged, Json.tagged?_pair, form?_name, Option.bind_eq_bind,
      Option.bind_some] <;> rfl

theorem read_null (depth : Nat) : read (depth + 1) null.toJson = some null := by
  simp only [read, readFrom, toJson, Json.tagged?_single, form?_name, Option.bind_eq_bind,
    Option.bind_some]
  rfl

theorem mapM_uint8 (depth : Nat) (b : List UInt8) :
    (b.map fun byte => Json.ofNat byte.toNat).mapM (Reader.uint8 depth) = some b := by
  have hread := Json.mapM_guarded (f := Reader.uint8 depth) (p := fun _ => true) (l := b)
    fun byte _ => Reader.uint8_ofNat byte
  rwa [List.all_eq_true.2 fun _ _ => rfl] at hread

theorem one_le_nesting (v : PropertyValue) : 1 ≤ v.nesting := by
  cases v <;> simp [nesting]

/-- A value whose content is of one container is read wherever one may be. -/
theorem if_shallow {v : PropertyValue} (hfinite : v.isFinite = true) (hnesting : v.nesting = 1)
    (depth : Nat) :
    (if v.isFinite && decide (v.nesting ≤ depth + 1) then some v else none) = some v := by
  simp [hfinite, hnesting]

mutual

/-- A value is read back exactly if its floats are finite and it does not nest too deep. -/
theorem read_toJson : ∀ (v : PropertyValue) (depth : Nat), v.ReadsBack →
    read depth v.toJson = if v.isFinite && decide (v.nesting ≤ depth) then some v else none
  | v, 0, _ => by
    have hdeep : ¬ v.nesting ≤ 0 := Nat.not_le_of_lt v.one_le_nesting
    rw [decide_eq_false hdeep, Bool.and_false]
    rfl
  | null, depth + 1, _ => (read_null depth).trans (if_shallow rfl rfl depth).symm
  | bool b, depth + 1, _ => (read_tagged ..).trans (if_shallow rfl rfl depth).symm
  | int i, depth + 1, _ => by
    have hread : read (depth + 1) (int i).toJson =
        (Reader.int64 depth (.ofInt i.toInt)).map int := read_tagged ..
    rw [hread, Reader.int64_ofInt, if_shallow rfl rfl]
    rfl
  | float x, depth + 1, h => by
    have hread : read (depth + 1) (float x).toJson =
        (Reader.binary64 depth (.ofBinary .json64 x)).map float := read_tagged ..
    rw [hread, Reader.binary64_ofBinary h, isFinite]
    cases x.isFinite <;> simp [nesting]
  | string t, depth + 1, _ => (read_tagged ..).trans (if_shallow rfl rfl depth).symm
  | bytes b, 1, _ => by
    have hread : read 1 (bytes b).toJson = none := read_tagged ..
    rw [hread]
    simp [nesting]
  | bytes b, below + 2, _ => by
    have hread : read (below + 2) (bytes b).toJson =
        ((b.map fun byte => Json.ofNat byte.toNat).mapM (Reader.uint8 below)).map bytes :=
      read_tagged ..
    rw [hread, mapM_uint8]
    simp [isFinite, nesting]
  | list l, 1, _ => by
    have hread : read 1 (list l).toJson = none := read_tagged ..
    rw [hread]
    simp [nesting]
  | list l, below + 2, h => by
    have hread : read (below + 2) (list l).toJson =
        ((toJson.toJsons l).mapM (read below)).map list := read_tagged ..
    rw [hread, mapM_read_toJsons l below h, isFinite, nesting]
    simp only [Nat.add_le_add_iff_right]
    split <;> rfl
  | instant t, depth + 1, h => by
    have hread : read (depth + 1) (instant t).toJson =
        ((Reader.text depth (.text t.format)).bind Time.Instant.parse?).map instant :=
      read_tagged ..
    have htext : Reader.text depth (.text t.format) = some t.format := rfl
    rw [hread, htext, Option.bind_some, show Time.Instant.parse? t.format = some t from h,
      if_shallow rfl rfl]
    rfl

theorem mapM_read_toJsons : ∀ (l : List PropertyValue) (depth : Nat), AllReadBack l →
    (toJson.toJsons l).mapM (read depth) =
      if allFinite l && decide (nestingOfAll l ≤ depth) then some l else none
  | [], depth, _ => by simp [toJson.toJsons, allFinite, nestingOfAll]
  | v :: rest, depth, h => by
    have hboth : (allFinite (v :: rest) && decide (nestingOfAll (v :: rest) ≤ depth)) =
        (v.isFinite && decide (v.nesting ≤ depth) &&
          (allFinite rest && decide (nestingOfAll rest ≤ depth))) := by
      simp only [allFinite, nestingOfAll, Nat.max_le, Bool.decide_and]
      ac_rfl
    rw [toJson.toJsons, List.mapM_cons, read_toJson v depth h.1, mapM_read_toJsons rest depth h.2,
      hboth]
    exact Json.bind_guarded _ _ v rest List.cons

end

end PropertyValue

namespace PropertyMap

/-- Whether all values are read back. -/
def ReadsBack (m : PropertyMap) : Prop := ∀ p ∈ m.entries, p.2.ReadsBack

/-- Whether all values can be read so many containers further down. -/
def readable (depth : Nat) (m : PropertyMap) : Bool :=
  m.entries.all fun p => p.2.isFinite && decide (p.2.nesting ≤ depth)

/-- A name after all others goes last. -/
theorem place_eq_append {name : String} {value : PropertyValue}
    {l : List (String × PropertyValue)} (h : ∀ p ∈ l, p.1 < name) :
    place name value l = l ++ [(name, value)] := by
  induction l with
  | nil => rfl
  | cons p rest ih =>
    obtain ⟨n, v⟩ := p
    have hlt : n < name := h _ List.mem_cons_self
    have hnot : ¬ name < n := fun hgt => String.lt_irrefl _ (String.lt_trans hlt hgt)
    have hne : name ≠ n := fun e => String.lt_irrefl _ (e ▸ hlt)
    rw [place, if_neg hnot, if_neg hne, ih fun q hq => h q (List.mem_cons_of_mem _ hq)]
    rfl

theorem entries_foldl_insert (l : List (String × PropertyValue)) (m : PropertyMap)
    (h : (m.entries ++ l).Pairwise fun a b => a.1 < b.1) :
    (l.foldl (fun m p => m.insert p.1 p.2) m).entries = m.entries ++ l := by
  induction l generalizing m with
  | nil => exact (List.append_nil _).symm
  | cons p rest ih =>
    have hplace : (m.insert p.1 p.2).entries = m.entries ++ [p] :=
      place_eq_append fun q hq => (List.pairwise_append.1 h).2.2 q hq p List.mem_cons_self
    have hsplit : m.entries ++ p :: rest = (m.insert p.1 p.2).entries ++ rest := by
      rw [hplace, List.append_assoc, List.singleton_append]
    rw [List.foldl_cons, ih (m.insert p.1 p.2) (hsplit ▸ h), hsplit]

/-- A map is the one of its entries. -/
theorem ofList_entries (m : PropertyMap) : ofList m.entries = m := by
  have hentries : (ofList m.entries).entries = m.entries :=
    entries_foldl_insert m.entries empty m.ascending
  cases hm : ofList m.entries
  cases m
  rw [hm] at hentries
  exact PropertyMap.mk.injEq .. ▸ hentries

theorem faithful_toJson {m : PropertyMap} (h : m.ReadsBack) : Faithful m.toJson := by
  refine faithfulMembers_iff.2 fun x hx => ?_
  obtain ⟨y, hy, rfl⟩ := List.mem_map.1 hx
  obtain ⟨p, hp, rfl⟩ := List.mem_map.1 hy
  exact PropertyValue.faithful_toJson p.2 (h p hp)

/-- The properties of a vertex are read back exactly if all their values are. -/
theorem read_toJson {m : PropertyMap} (h : m.ReadsBack) (depth : Nat) :
    read (depth + 1) m.toJson = if m.readable depth then some m else none := by
  have hmembers : Reader.dictionary PropertyValue.read (depth + 1) m.toJson =
      if m.readable depth then some m.entries else none := by
    rw [toJson, Json.record, List.map_map]
    refine Json.mapM_guarded fun p hp => ?_
    obtain ⟨name, v⟩ := p
    have hread := PropertyValue.read_toJson v depth (h _ hp)
    simp only [Function.comp_apply, Option.bind_eq_bind, Option.bind_some, hread]
    split <;> rfl
  rw [read, hmembers]
  split
  · exact congrArg some (ofList_entries m)
  · rfl

end PropertyMap

end Arcbase
