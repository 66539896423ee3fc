import Arcbase.Arc.Filter
import Arcbase.AssocMap
import Arcbase.Vertex.Key
set_option autoImplicit false

/-!
# Arc indexes

An arc index holds the arcs on one side of a vertex, under the vertex at their
other end and then by relationship and kind, their *slot*.  It is empty, a single
arc, or a map from neighbors to lists of arcs, and takes the simplest of these
forms that serves.  The arcs toward one neighbor stay in the order in which their
slots were first filled; an arc that replaces another takes its place.
-/

namespace Arcbase

/-! ## The arcs toward one neighbor -/

namespace Slots

/-- The arc in a slot. -/
def find? (relationship : LabelCode) (kind : ArcKind) (l : List StoredArc) : Option StoredArc :=
  l.find? fun a => a.inSlot relationship kind

/-- Puts an arc into its slot: over the arc that is there, or at the end. -/
def put (arc : StoredArc) : List StoredArc → List StoredArc
  | [] => [arc]
  | a :: rest => if a.inSlot arc.relationship arc.kind then arc :: rest else a :: put arc rest

/-- Empties a slot. -/
def remove (relationship : LabelCode) (kind : ArcKind) (l : List StoredArc) : List StoredArc :=
  l.eraseP fun a => a.inSlot relationship kind

theorem inSlot_self (a : StoredArc) : a.inSlot a.relationship a.kind = true := by
  simp [StoredArc.inSlot]

theorem find?_put_self (arc : StoredArc) (l : List StoredArc) :
    find? arc.relationship arc.kind (put arc l) = some arc := by
  induction l with
  | nil => simp [put, find?, inSlot_self]
  | cons a rest ih =>
    simp only [put]
    split
    · simp [find?, inSlot_self]
    next h => simpa [find?, h] using ih

theorem length_put (arc : StoredArc) (l : List StoredArc) :
    (put arc l).length =
      if (find? arc.relationship arc.kind l).isSome then l.length else l.length + 1 := by
  induction l with
  | nil => simp [put, find?]
  | cons a rest ih =>
    simp only [put, find?] at ih ⊢
    by_cases h : a.inSlot arc.relationship arc.kind
    · simp [h]
    · simp only [h, Bool.false_eq_true, if_false, List.length_cons, ih, List.find?_cons_of_neg,
        not_false_eq_true]
      split <;> simp_all

theorem inSlot_iff {a : StoredArc} {relationship : LabelCode} {kind : ArcKind} :
    a.inSlot relationship kind = true ↔ a.relationship = relationship ∧ a.kind = kind := by
  simp [StoredArc.inSlot]

/-- Of all slots, only the arc's own changes. -/
theorem find?_put (arc : StoredArc) (relationship : LabelCode) (kind : ArcKind)
    (l : List StoredArc) :
    find? relationship kind (put arc l) =
      if arc.inSlot relationship kind then some arc else find? relationship kind l := by
  induction l with
  | nil =>
    simp only [put, find?, List.find?_cons, List.find?_nil]
    cases arc.inSlot relationship kind <;> rfl
  | cons a rest ih =>
    simp only [put]
    by_cases ha : a.inSlot arc.relationship arc.kind
    · obtain ⟨hr, hk⟩ := inSlot_iff.1 ha
      have same : a.inSlot relationship kind = arc.inSlot relationship kind := by
        simp [StoredArc.inSlot, hr, hk]
      rw [if_pos ha]
      by_cases h : arc.inSlot relationship kind
      · simp [find?, h]
      · simp [find?, h, same]
    · rw [if_neg ha]
      by_cases h : a.inSlot relationship kind
      · have other : arc.inSlot relationship kind = false := by
          rw [Bool.eq_false_iff]
          intro e
          obtain ⟨hr, hk⟩ := inSlot_iff.1 e
          exact ha (by rw [hr, hk]; exact h)
        simp [find?, h, other]
      · have hn : a.inSlot relationship kind = false := by simpa using h
        have ih' := ih
        simp only [find?] at ih'
        simp [find?, hn, ih']

end Slots

/-! ## Indexes -/

/-- The arcs on one side of a vertex. -/
inductive ArcIndex where
  | empty
  | single (neighbor : VertexKey) (arc : StoredArc)
  /-- two arcs or more, and their number -/
  | multi (arcs : AssocMap VertexKey (List StoredArc)) (size : Nat)
  deriving Repr, DecidableEq

/-- The form of an index. -/
inductive Tier where
  | empty
  | single
  | multi
  deriving DecidableEq, Repr

def Tier.name : Tier → String
  | empty => "Empty"
  | single => "Single"
  | multi => "Multi"

/-! ### Enumeration -/

/-- Where an enumeration of the arcs of an index stands. -/
inductive ArcCursor where
  | done
  | single (item : Option (VertexKey × StoredArc))
  /-- the lists to come, and what is left of the list at hand -/
  | multi (outer : List (VertexKey × List StoredArc))
      (current : Option (VertexKey × List StoredArc))
  deriving Repr, DecidableEq

namespace ArcCursor

/-- Takes an arc from the list at hand, or from the first list to come that has one. -/
def advance : List (VertexKey × List StoredArc) → Option (VertexKey × List StoredArc) →
    Option (VertexKey × StoredArc) × ArcCursor
  | outer, some (n, a :: rest) => (some (n, a), multi outer (some (n, rest)))
  | [], current => (none, multi [] current)
  | list :: outer, _ => advance outer (some list)

/-- The next arc with its neighbor, and where the enumeration stands then. -/
def next : ArcCursor → Option (VertexKey × StoredArc) × ArcCursor
  | done => (none, done)
  | single item => (item, single none)
  | multi outer current => advance outer current

/-- Number of arcs to come. -/
def remaining : ArcCursor → Nat
  | done => 0
  | single item => item.toList.length
  | multi outer current => ((current.toList ++ outer).flatMap Prod.snd).length

/-- At most `count` of the arcs to come. -/
def take : Nat → ArcCursor → List (VertexKey × StoredArc)
  | 0, _ => []
  | count + 1, c =>
    match c.next with
    | (none, _) => []
    | (some item, c') => item :: take count c'

/-- The arcs to come. -/
def toList (c : ArcCursor) : List (VertexKey × StoredArc) := c.take c.remaining

end ArcCursor

namespace ArcIndex

instance : Inhabited ArcIndex := ⟨empty⟩

def tier : ArcIndex → Tier
  | empty => .empty
  | single .. => .single
  | multi .. => .multi

/-- Number of arcs. -/
def size : ArcIndex → Nat
  | empty => 0
  | single .. => 1
  | multi _ size => size

def isEmpty (i : ArcIndex) : Bool := i.size == 0

/-- Number of neighbors. -/
def neighborCount : ArcIndex → Nat
  | empty => 0
  | single .. => 1
  | multi arcs _ => arcs.size

/-- The arcs toward a neighbor. -/
def arcsTo (i : ArcIndex) (neighbor : VertexKey) : List StoredArc :=
  match i with
  | empty => []
  | single n arc => if n = neighbor then [arc] else []
  | multi arcs _ => (arcs.get? neighbor).getD []

/-- Whether any arc goes to the neighbor. -/
def contains (i : ArcIndex) (neighbor : VertexKey) : Bool := !(i.arcsTo neighbor).isEmpty

/-- The arc in a slot toward a neighbor. -/
def get? (i : ArcIndex) (neighbor : VertexKey) (relationship : LabelCode) (kind : ArcKind) :
    Option StoredArc :=
  Slots.find? relationship kind (i.arcsTo neighbor)

/-- An enumeration of all arcs, at its beginning. -/
def iter : ArcIndex → ArcCursor
  | empty => .done
  | single neighbor arc => .single (some (neighbor, arc))
  | multi arcs _ => .multi arcs.entries none

/-- All arcs with their neighbors. -/
def entries (i : ArcIndex) : List (VertexKey × StoredArc) := i.iter.toList

/-- Puts an arc into its slot toward a neighbor, with the arc that was there. -/
def insert (i : ArcIndex) (neighbor : VertexKey) (arc : StoredArc) :
    Option StoredArc × ArcIndex :=
  let old := i.get? neighbor arc.relationship arc.kind
  (old,
    match i with
    | empty => single neighbor arc
    | single n a =>
      if old.isSome then single n arc
      else
        let first : AssocMap VertexKey (List StoredArc) := AssocMap.empty.insert n [a]
        multi (first.insert neighbor (Slots.put arc ((first.get? neighbor).getD []))) 2
    | multi arcs size =>
      multi (arcs.insert neighbor (Slots.put arc ((arcs.get? neighbor).getD [])))
        (if old.isSome then size else size + 1))

/-- The simplest form of a map of arcs. -/
def demote (arcs : AssocMap VertexKey (List StoredArc)) (size : Nat) : ArcIndex :=
  match size, (multi arcs size).entries with
  | 0, _ => empty
  | 1, (n, a) :: _ => single n a
  | _, _ => multi arcs size

/-- Empties a slot toward a neighbor, with the arc that was there. -/
def remove (i : ArcIndex) (neighbor : VertexKey) (relationship : LabelCode) (kind : ArcKind) :
    Option StoredArc × ArcIndex :=
  match i.get? neighbor relationship kind with
  | none => (none, i)
  | some old =>
    (some old,
      match i with
      | empty | single .. => empty
      | multi arcs size =>
        let left := Slots.remove relationship kind ((arcs.get? neighbor).getD [])
        demote (if left.isEmpty then arcs.erase neighbor else arcs.insert neighbor left) (size - 1))

/-- Gives the arc in a slot another value, if there is one. -/
def setValue (i : ArcIndex) (neighbor : VertexKey) (relationship : LabelCode) (kind : ArcKind)
    (value : ArcValue) : Option StoredArc × ArcIndex :=
  match i.get? neighbor relationship kind with
  | none => (none, i)
  | some old =>
    let arc := { old with value }
    (some arc, (i.insert neighbor arc).2)

/-- The arcs a filter accepts, with their neighbors. -/
def matching (i : ArcIndex) (f : ArcFilter) : List (VertexKey × StoredArc) :=
  i.entries.filter fun (_, a) => f.test a

def countMatching (i : ArcIndex) (f : ArcFilter) : Nat := (i.matching f).length

@[simp] theorem arcsTo_empty (n : VertexKey) : empty.arcsTo n = [] := rfl

@[simp] theorem get?_empty (n : VertexKey) (r : LabelCode) (k : ArcKind) :
    empty.get? n r k = none := rfl

/-- The arcs toward one neighbor after an arc is put into its slot. -/
theorem arcsTo_insert (i : ArcIndex) (n n' : VertexKey) (arc : StoredArc) :
    (i.insert n arc).2.arcsTo n' =
      if n = n' then Slots.put arc (i.arcsTo n) else i.arcsTo n' := by
  cases i with
  | empty => simp [insert, arcsTo, Slots.put]
  | single m a =>
    by_cases hm : m = n
    · subst hm
      by_cases ha : a.inSlot arc.relationship arc.kind
      · have old : (single m a).get? m arc.relationship arc.kind = some a := by
          simp [get?, arcsTo, Slots.find?, ha]
        simp only [insert, old, Option.isSome_some, if_true, arcsTo, Slots.put, ha]
        split <;> rfl
      · have old : (single m a).get? m arc.relationship arc.kind = none := by
          simp [get?, arcsTo, Slots.find?, ha]
        simp only [insert, old, Option.isSome_none, Bool.false_eq_true, if_false, arcsTo,
          AssocMap.get?_insert, if_true, Option.getD_some]
        split <;> simp
    · have old : (single m a).get? n arc.relationship arc.kind = none := by
        simp [get?, arcsTo, Slots.find?, hm]
      simp only [insert, old, Option.isSome_none, Bool.false_eq_true, if_false, arcsTo,
        AssocMap.get?_insert, hm, AssocMap.get?_empty, Option.getD_none]
      by_cases hn : n = n'
      · simp [hn]
      · by_cases hm' : m = n' <;> simp [hn, hm']
  | multi arcs size =>
    simp only [insert, arcsTo, AssocMap.get?_insert]
    split <;> simp

/-- Of all slots, only the arc's own toward the neighbor changes. -/
theorem get?_insert (i : ArcIndex) (n n' : VertexKey) (arc : StoredArc)
    (relationship : LabelCode) (kind : ArcKind) :
    (i.insert n arc).2.get? n' relationship kind =
      if n = n' ∧ arc.inSlot relationship kind = true then some arc
      else i.get? n' relationship kind := by
  simp only [get?, arcsTo_insert]
  by_cases hn : n = n'
  · subst hn
    simp [Slots.find?_put]
  · simp [hn]

end ArcIndex

end Arcbase
