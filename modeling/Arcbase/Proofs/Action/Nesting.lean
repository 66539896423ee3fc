import Arcbase.Proofs.Action.Answering
set_option autoImplicit false

/-!
# How deep an action nests its holds

The outcome of an action does not show what it holds on the way.  A property of stores goes
*throughout* an action (`Throughout`) if it is true before and after each of the steps that
the action is put together from, where a step takes one vertex or gives one guard back.

`Nests` adds that to what is told of an action that answers.  A walk is bounded by it: the
property is that a thread has no more than so many levels on any vertex
(`Store.NestsWithin`), and below the limit readonly access fails for one reason only, that
another thread writes (`LockTable.busy_of_acquire`).
-/

namespace Arcbase

open Guard

namespace LockRecord

variable {limit : Nat} {r : LockRecord} {G : List Guard} {me : Thread}

end LockRecord

namespace Action

open Store

variable {α β : Type} {s : Store} {G : List Guard} {P : Store → Prop} {who : Caller}

/-- A property holds in the store on which the action starts, after each of its steps, and in
the store that it leaves.  A step takes a vertex, gives a guard back or only reads. -/
inductive Throughout (P : Store → Prop) : {α : Type} → Action α → Store → Prop where
  | pure {α : Type} (x : α) {s : Store} (here : P s) : Throughout P (pure x) s
  | ofExcept {α : Type} (r : Except Error α) {s : Store} (here : P s) :
    Throughout P (ofExcept r) s
  | read {α : Type} (f : Store → α) {s : Store} (here : P s) : Throughout P (read f) s
  | acquire (who : Caller) (c : CellId) (mode : LockMode) {s : Store} (before : P s)
      (after : P ((acquire who c mode).run s).2) : Throughout P (acquire who c mode) s
  | giveBack {α : Type} {a : Action α} (g : Guard) {s : Store} (body : Throughout P a s)
      (after : P ((a.run s).2.drop g)) : Throughout P (ensuring a fun s => s.drop g) s
  | bind {α β : Type} {a : Action α} {f : α → Action β} {s : Store} (first : Throughout P a s)
      (next : ∀ x s', a.run s = (.ok x, s') → Throughout P (f x) s') : Throughout P (a >>= f) s

theorem Throughout.start {a : Action α} (h : Throughout P a s) : P s := by
  induction h with
  | pure _ here => exact here
  | ofExcept _ here => exact here
  | read _ here => exact here
  | acquire _ _ _ before _ => exact before
  | giveBack _ _ _ ih => exact ih
  | bind _ _ ih => exact ih

/-- The property is true of a store whenever its locks amount to the guards. -/
def Fits (s : Store) (G : List Guard) (P : Store → Prop) : Prop :=
  ∀ t, s.locks.SameSettings t → t.Accounts G → P { s with locks := t }

/-- The action answers, and the property goes throughout it. -/
structure Nests (s : Store) (G : List Guard) (P : Store → Prop) (a : Action α)
    (Q : Except Error α → Prop) : Prop where
  answers : Answers s G a Q
  throughout : ∀ t, s.locks.SameSettings t → t.Accounts G → Throughout P a { s with locks := t }

end Action

end Arcbase
