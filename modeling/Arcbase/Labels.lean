import Std.Data.TreeMap
import Arcbase.Error
set_option autoImplicit false

/-!
# Label tables

Arcs and vertices store small codes in place of relationship and type labels.  A
label gets the next free code when it is first encoded and keeps it for good;
looking a label or a code up assigns nothing.  A table is full at its capacity,
and at the latest when the codes are used up.

One pair of tables may serve several graphs.
-/

namespace Arcbase

/-- The code of a label. -/
abbrev LabelCode := UInt16

/-- Labels and their codes. -/
structure LabelTable where
  capacity : Nat
  /-- The label of every code, in order. -/
  labels : Array String := #[]
  /-- The code of every label. -/
  codes : Std.TreeMap String LabelCode := ∅

namespace LabelTable

/-- Number of codes there are. -/
def codeLimit : Nat := 65536

/-- Number of labels. -/
def size (t : LabelTable) : Nat := t.labels.size

def lookup? (t : LabelTable) (label : String) : Option LabelCode := t.codes[label]?

def decode? (t : LabelTable) (code : LabelCode) : Option String := t.labels[code.toNat]?

/-- Whether no further label fits. -/
def isFull (t : LabelTable) : Bool := t.capacity ≤ t.size || codeLimit ≤ t.size

/-- The code of a label, a new one if it has none yet; nothing if it has none
and the table is full. -/
def encode (t : LabelTable) (label : String) : Option LabelCode × LabelTable :=
  match t.lookup? label with
  | some code => (some code, t)
  | none =>
    if t.isFull then (none, t)
    else
      let code := UInt16.ofNat t.size
      (some code, { t with labels := t.labels.push label, codes := t.codes.insert label code })

theorem encode_of_lookup? {t : LabelTable} {label : String} {code : LabelCode}
    (h : t.lookup? label = some code) : t.encode label = (some code, t) := by
  simp [encode, h]

end LabelTable

/-- The tables of relationship labels and of vertex type labels. -/
structure Labels where
  relationships : LabelTable
  types : LabelTable

namespace Labels

/-- Empty tables of the given capacities. -/
def withCapacity (relationships types : Nat) : Labels :=
  { relationships := { capacity := relationships }, types := { capacity := types } }

/-- Empty tables of the standard capacity. -/
def new : Labels := withCapacity 65535 65535

/-- The code of a relationship label, a new one if need be. -/
def encodeRelationship : Labels → String → Except Error LabelCode × Labels
  | ⟨relationships, types⟩, label =>
    let (code, relationships) := relationships.encode label
    (code.elim (.error (.query (.relationshipCapacity label))) .ok, ⟨relationships, types⟩)

/-- The code of a vertex type label, a new one if need be. -/
def encodeType : Labels → String → Except Error LabelCode × Labels
  | ⟨relationships, types⟩, label =>
    let (code, types) := types.encode label
    (code.elim (.error (.vertex (.typeCapacity label))) .ok, ⟨relationships, types⟩)

/-- The label of a relationship code; a code without a label is shown as such. -/
def relationshipLabel (l : Labels) (code : LabelCode) : String :=
  (l.relationships.decode? code).getD s!"#{code.toNat}"

end Labels

end Arcbase
