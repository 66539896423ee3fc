import Arcbase.Arc.Probe
import Arcbase.Labels
set_option autoImplicit false

/-!
# Stored arcs and filters

A stored arc is an arc without its ends: the vertex that stores it knows one,
the index it is stored in the other.  A filter is a probe whose label has been
looked up; a label without a code matches no arc at all.
-/

namespace Arcbase

/-- An arc without its ends. -/
structure StoredArc where
  relationship : LabelCode
  kind : ArcKind
  value : ArcValue
  forwardOnly : Bool
  deriving DecidableEq, Repr

/-- Between two vertices there is at most one arc of each relationship and kind. -/
def StoredArc.inSlot (a : StoredArc) (relationship : LabelCode) (kind : ArcKind) : Bool :=
  a.relationship == relationship && a.kind == kind

/-- The relationships a filter accepts. -/
inductive RelationshipMatch where
  | any
  | code (c : LabelCode)
  | nothing
  deriving DecidableEq, Repr

def RelationshipMatch.test : RelationshipMatch → LabelCode → Bool
  | any, _ => true
  | code c, r => r == c
  | nothing, _ => false

/-- A probe after its label has been looked up; the sides are chosen by whoever
applies it. -/
structure ArcFilter where
  relationship : RelationshipMatch
  kind : Option ArcKind
  value : Comparator
  deriving DecidableEq, Repr

namespace ArcFilter

/-- Accepts every arc. -/
def all : ArcFilter := { relationship := .any, kind := none, value := .any }

def test (f : ArcFilter) (a : StoredArc) : Bool :=
  f.relationship.test a.relationship && f.kind.all (· == a.kind) && f.value.test a.value.toNumber

/-- Whether the label has no code. -/
def matchesNothing (f : ArcFilter) : Bool := f.relationship == .nothing

/-- The filter of a probe. -/
def ofProbe (labels : Labels) (p : Probe) : Except Error ArcFilter :=
  match p.value.fault? with
  | some fault => .error (.query fault)
  | none =>
    match p.relationship with
    | none => .ok ⟨.any, p.kind, p.value⟩
    | some "" => .error (.query .emptyRelationship)
    | some label =>
      match labels.relationships.lookup? label with
      | some c => .ok ⟨.code c, p.kind, p.value⟩
      | none => .ok ⟨.nothing, p.kind, p.value⟩

theorem test_all (a : StoredArc) : all.test a = true := rfl

theorem test_of_matchesNothing {f : ArcFilter} (h : f.matchesNothing = true) (a : StoredArc) :
    f.test a = false := by
  simp only [matchesNothing, beq_iff_eq] at h
  simp [test, h, RelationshipMatch.test]

end ArcFilter

end Arcbase
