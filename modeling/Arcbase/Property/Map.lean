import Arcbase.Property.Value
set_option autoImplicit false

/-!
# Property maps

The named values of a vertex, listed in ascending order of their names.  The
order is part of the type, so equal maps are equal lists.
-/

namespace Arcbase

/-- Values under names, ascending. -/
structure PropertyMap where
  entries : List (String × PropertyValue)
  ascending : entries.Pairwise fun a b => a.1 < b.1
  deriving Repr

namespace PropertyMap

def empty : PropertyMap := ⟨[], List.Pairwise.nil⟩

instance : Inhabited PropertyMap := ⟨empty⟩

/-- Puts a value into its place, over an older one of the same name. -/
def place (name : String) (value : PropertyValue) :
    List (String × PropertyValue) → List (String × PropertyValue)
  | [] => [(name, value)]
  | (n, v) :: rest =>
    if name < n then (name, value) :: (n, v) :: rest
    else if name = n then (name, value) :: rest
    else (n, v) :: place name value rest

theorem mem_place {name : String} {value : PropertyValue} {p : String × PropertyValue}
    {l : List (String × PropertyValue)} (h : p ∈ place name value l) :
    p = (name, value) ∨ p ∈ l := by
  induction l with
  | nil => simpa [place] using h
  | cons q rest ih =>
    obtain ⟨n, v⟩ := q
    simp only [place] at h
    split at h
    · simpa using h
    · split at h
      · rcases List.mem_cons.1 h with e | hr
        · exact .inl e
        · exact .inr (List.mem_cons_of_mem _ hr)
      · rcases List.mem_cons.1 h with e | hr
        · exact .inr (e ▸ List.mem_cons_self)
        · exact (ih hr).imp id (List.mem_cons_of_mem _)

theorem lt_of_not_lt_of_ne {a b : String} (h : ¬ a < b) (hn : a ≠ b) : b < a :=
  String.not_le.1 fun hle => hn (String.le_antisymm hle (String.not_lt.1 h))

theorem pairwise_place (name : String) (value : PropertyValue)
    {l : List (String × PropertyValue)} (h : l.Pairwise fun a b => a.1 < b.1) :
    (place name value l).Pairwise fun a b => a.1 < b.1 := by
  induction l with
  | nil => simp [place]
  | cons q rest ih =>
    obtain ⟨n, v⟩ := q
    rw [List.pairwise_cons] at h
    simp only [place]
    split
    next hlt =>
      refine List.pairwise_cons.2 ⟨?_, List.pairwise_cons.2 h⟩
      intro p hp
      rcases List.mem_cons.1 hp with e | hr
      · exact e ▸ hlt
      · exact String.lt_trans hlt (h.1 p hr)
    next hnot =>
      split
      next heq =>
        subst heq
        exact List.pairwise_cons.2 ⟨h.1, h.2⟩
      next hne =>
        refine List.pairwise_cons.2 ⟨?_, ih h.2⟩
        intro p hp
        rcases mem_place hp with e | hr
        · exact e ▸ lt_of_not_lt_of_ne hnot hne
        · exact h.1 p hr

/-- The value under a name. -/
def get? (m : PropertyMap) (name : String) : Option PropertyValue :=
  (m.entries.find? fun p => p.1 == name).map Prod.snd

def contains (m : PropertyMap) (name : String) : Bool := (m.get? name).isSome

/-- Gives a name a value. -/
def insert (m : PropertyMap) (name : String) (value : PropertyValue) : PropertyMap :=
  ⟨place name value m.entries, pairwise_place name value m.ascending⟩

/-- Forgets a name. -/
def erase (m : PropertyMap) (name : String) : PropertyMap :=
  ⟨m.entries.filter fun p => p.1 != name, m.ascending.filter _⟩

/-- The map of a list of pairs; of two values under one name the later wins. -/
def ofList (l : List (String × PropertyValue)) : PropertyMap :=
  l.foldl (fun m p => m.insert p.1 p.2) empty

theorem find?_place (name name' : String) (value : PropertyValue)
    (l : List (String × PropertyValue)) :
    ((place name value l).find? fun p => p.1 == name').map Prod.snd =
      if name = name' then some value else (l.find? fun p => p.1 == name').map Prod.snd := by
  induction l with
  | nil => by_cases h : name = name' <;> simp [place, h]
  | cons p rest ih =>
    obtain ⟨n, v⟩ := p
    simp only [place]
    split
    · by_cases h : name = name' <;> simp [h]
    · split
      next h =>
        subst h
        by_cases h' : name = name' <;> simp [h']
      next h =>
        by_cases hn : n = name'
        · subst hn
          simp [h]
        · simpa [hn] using ih

theorem get?_insert (m : PropertyMap) (name name' : String) (value : PropertyValue) :
    (m.insert name value).get? name' = if name = name' then some value else m.get? name' :=
  find?_place name name' value m.entries

theorem get?_erase (m : PropertyMap) (name name' : String) :
    (m.erase name).get? name' = if name = name' then none else m.get? name' := by
  simp only [get?, erase, List.find?_filter]
  split
  next h =>
    subst h
    simp
  next h =>
    congr 2
    funext p
    by_cases hp : p.1 = name'
    · simp [hp, Ne.symm h]
    · simp [hp]

end PropertyMap

end Arcbase
