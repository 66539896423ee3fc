import Arcbase.Proofs.Action.Answering
import Arcbase.Store.Reading
import Arcbase.Store.Snapshot
set_option autoImplicit false

/-!
# What a thread reads that can read everything

Requests that only read a graph take the vertices that they read readonly.  For a thread
that can be given every vertex they come to what is told here without locks
(`answers_infoOf`, `answers_adjacentOf`, `answers_degreeOf`, `answers_valueOf`,
`answers_toSnapshot`).
-/

namespace Arcbase

namespace Store

variable (s : Store)

/-- Whether a thread can be given readonly access to every vertex besides guards. -/
def OpenTo (G : List Guard) (me : Thread) : Prop := ∀ c, s.Live c → s.CanRead G me [] c

def found (id : String) : Except Error CellId :=
  (s.lookup id).elim (.error (.key (.missing id))) .ok

def infoOf (id : String) : Except Error VertexInfo := do
  return s.info (← s.found id)

def adjacentOf (anchor : String) (probe : Probe) (neighbor : Option String) :
    Except Error Bool := do
  let filter ← s.filterOf probe
  let c ← s.found anchor
  match neighbor with
  | none => return (s.data c).hasMatchingArc filter probe.direction none
  | some id =>
    match s.lookup id with
    | none => return false
    | some n => return (s.data c).hasMatchingArc filter probe.direction (some [s.keyOf n])

def degreeOf (anchor : String) (probe : Option Probe) : Except Error Nat := do
  let c ← s.found anchor
  match probe with
  | none => return (s.data c).degree
  | some probe =>
    let filter ← s.filterOf probe
    return ((s.data c).matchingArcs filter probe.direction).length

def valueOf (initial : String) (probe : Probe) (terminal : String) :
    Except Error (Option ArcValue) := do
  let filter ← s.filterOf probe
  let c ← s.found initial
  match s.lookup terminal with
  | none => return none
  | some t =>
    return ((s.data c).arcsBetween (s.keyOf t) filter probe.direction).head?.map (·.value)

/-- The vertices by identifier. -/
def ordered : List CellId :=
  s.registered.mergeSort fun a b => (compare (s.cell a).id (s.cell b).id).isLE

/-- The snapshot of a graph. -/
def toSnapshot : Snapshot :=
  { name := s.config.name
    vertices := s.ordered.map s.vertexSnapshot
    arcs := (s.ordered.flatMap s.arcSnapshots).mergeSort ArcSnapshot.before }

end Store

namespace Action

open Store

variable {α β : Type} {s : Store} {G : List Guard} {who : Caller}

theorem answers_bind_eq {a : Action α} {f : α → Action β} {x : Except Error α}
    {y : α → Except Error β} (ha : Answers s G a (· = x))
    (hf : ∀ v, x = .ok v → Answers s G (f v) (· = y v)) : Answers s G (a >>= f) (· = x >>= y) :=
  answers_bind ha (fun e he => he ▸ rfl) fun v hv => by
    rw [← hv]
    exact hf v hv.symm

/-- Nothing that is read depends on the locks. -/
theorem answers_read_store {f : Store → Action α} {Q : Except Error α → Prop}
    (h : ∀ t, Answers s G (f { s with locks := t }) Q) : Answers s G (read id >>= f) Q := by
  refine answers_bind (M := fun r => ∃ t, r = .ok { s with locks := t })
    (answers_read fun t => ⟨t, rfl⟩) (fun e he => nomatch he) fun s' hs' => ?_
  obtain ⟨t, ht⟩ := hs'
  obtain rfl := Except.ok.inj ht
  exact h t

theorem answers_filter {probe : Probe} {f : ArcFilter → Action α}
    {y : ArcFilter → Except Error α} (hf : ∀ v, Answers s G (f v) (· = y v)) :
    Answers s G (do let filter ← ofExcept (← read (·.filterOf probe)); f filter)
      (· = s.filterOf probe >>= y) :=
  answers_bind (M := (· = .ok (s.filterOf probe))) (answers_read fun _ => rfl)
    (fun _ he => nomatch he) fun _ hx =>
      answers_bind_eq (answers_ofExcept (Except.ok.inj hx)) fun v _ => hf v

theorem answers_found (id : String) : Answers s G (find id) (· = s.found id) := by
  refine answers_bind (M := (· = .ok (s.lookup id))) (answers_read fun _ => rfl)
    (fun _ he => nomatch he) fun c hc => ?_
  obtain rfl := Except.ok.inj hc
  rw [found]
  cases s.lookup id with
  | none => exact answers_ofExcept rfl
  | some c => exact answers_pure rfl

/-- The answer is as told, or there is none for some reason. -/
def Told (x : α) (reason : Prop) (r : Except Error α) : Prop :=
  r = .ok x ∨ reason ∧ ∃ e, r = .error e

theorem answers_mapM {reason : Prop} {xs : List α} {f : α → Action β} {g : α → β}
    (h : ∀ x ∈ xs, Answers s G (f x) (Told (g x) reason)) :
    Answers s G (xs.mapM f) (Told (xs.map g) reason) := by
  induction xs with
  | nil => exact answers_pure (.inl rfl)
  | cons x rest ih =>
    rw [List.mapM_cons]
    refine answers_bind (h x List.mem_cons_self) (fun e he => ?_) fun y hy => ?_
    · exact .inr ⟨(he.resolve_left nofun).1, e, rfl⟩
    refine answers_bind (ih fun z hz => h z (List.mem_cons_of_mem x hz)) (fun e he => ?_)
      fun ys hys => answers_pure (.inl ?_)
    · exact .inr ⟨(he.resolve_left nofun).1, e, rfl⟩
    · rw [Except.ok.inj (hy.resolve_right nofun), Except.ok.inj (hys.resolve_right nofun)]
      rfl

/-- A snapshot that is taken is the one of the graph; it is refused only to a thread to which
some vertex is closed. -/
theorem answers_snapshot (hp : s.Placed) :
    Answers s G (snapshot who) (Told s.toSnapshot (¬ s.OpenTo G who.thread)) := by
  refine answers_read_store fun t => ?_
  have hordered : ∀ c ∈ s.ordered, s.Live c := fun c hc =>
    (mem_registered_iff hp).1 (List.mem_mergeSort.1 hc)
  refine answers_bind (answers_mapM (s := s)
    (g := fun c => (s.vertexSnapshot c, s.arcSnapshots c)) fun c hc => ?_)
    (fun e he => .inr ⟨(he.resolve_left nofun).1, e, rfl⟩) fun parts hparts => ?_
  · exact answers_holding (fun e hcannot => .inr ⟨fun hopen => hcannot (hopen c (hordered c hc)),
      e, rfl⟩) fun g _ _ => answers_read fun _ => .inl rfl
  · obtain rfl := Except.ok.inj (hparts.resolve_right nofun)
    refine answers_pure (.inl (congrArg Except.ok ?_))
    rw [toSnapshot, List.flatMap_map, List.map_map]
    rfl

variable (hopen : s.OpenTo G who.thread)
include hopen

theorem answers_held {c : CellId} (hc : s.Live c) {body : Action α} {x : Except Error α}
    (hbody : ∀ g, Answers s (g :: G) body (· = x)) :
    Answers s G (holding who c .readonly body) (· = x) :=
  answers_holding (fun _ hcannot => absurd (hopen c hc) hcannot) fun g _ _ => hbody g

variable (hp : s.Placed)
include hp

/-- A vertex is looked up, and read while it is held. -/
theorem answers_find_held (id : String) {body : CellId → Action α} {x : CellId → Except Error α}
    (hbody : ∀ c g, Answers s (g :: G) (body c) (· = x c)) :
    Answers s G (do let c ← find id; holding who c .readonly (body c)) (· = s.found id >>= x) := by
  refine answers_bind_eq (answers_found id) fun c hc => answers_held hopen ?_ (hbody c)
  rw [found] at hc
  cases hfound : s.lookup id with
  | none =>
    rw [hfound] at hc
    cases hc
  | some c' =>
    rw [hfound] at hc
    obtain rfl := Except.ok.inj hc
    exact (hp.of_lookup hfound).1

theorem answers_infoOf (id : String) : Answers s G (vertexInfo who id) (· = s.infoOf id) :=
  answers_find_held hopen hp id fun _ _ => answers_read fun _ => rfl

theorem answers_adjacentOf (anchor : String) (probe : Probe) (neighbor : Option String) :
    Answers s G (adjacent who anchor probe neighbor) (· = s.adjacentOf anchor probe neighbor) := by
  refine answers_filter fun filter => answers_find_held hopen hp anchor fun c g =>
    answers_read_store fun t => ?_
  cases neighbor with
  | none => exact answers_pure rfl
  | some id =>
    have hlookup : lookup { s with locks := t } id = s.lookup id := rfl
    dsimp only
    rw [hlookup]
    cases s.lookup id with
    | none => exact answers_pure rfl
    | some n => exact answers_pure rfl

theorem answers_degreeOf (anchor : String) (probe : Option Probe) :
    Answers s G (degree who anchor probe) (· = s.degreeOf anchor probe) := by
  refine answers_find_held hopen hp anchor fun c g => answers_read_store fun t => ?_
  cases probe with
  | none => exact answers_pure rfl
  | some probe => exact answers_bind_eq (answers_ofExcept rfl) fun _ _ => answers_pure rfl

theorem answers_valueOf (initial : String) (probe : Probe) (terminal : String) :
    Answers s G (arcValue who initial probe terminal) (· = s.valueOf initial probe terminal) := by
  refine answers_filter fun filter => answers_find_held hopen hp initial fun c g => ?_
  refine answers_bind (M := (· = .ok (s.lookup terminal))) (answers_read fun _ => rfl)
    (fun _ he => nomatch he) fun found hfound => ?_
  obtain rfl := Except.ok.inj hfound
  cases s.lookup terminal with
  | none => exact answers_pure rfl
  | some n => exact answers_read_store fun t => answers_pure rfl

theorem answers_toSnapshot : Answers s G (snapshot who) (· = .ok s.toSnapshot) :=
  (answers_snapshot hp).weaken fun _ hr => hr.resolve_right fun hrefused => hrefused.1 hopen

end Action

end Arcbase
