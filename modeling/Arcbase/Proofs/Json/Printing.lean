import Arcbase.Json.Parser
import Arcbase.Json.Printer
set_option autoImplicit false

/-!
# What is printed is read back

The compact text of a value is read as that value (`parse?_render`).  Strings may hold any
characters, and even no text at all; numbers have to be written as numbers are (`Literal`).
-/

namespace Arcbase.Json

variable {cs ds r rest : List Char}

/-! ## Numbers -/

/-- A number that is written as numbers are. -/
def Literal (digits : List Char) : Prop := number? digits = some (digits, [])

/-- A text that does not go on with a number. -/
def Ends (rest : List Char) : Prop :=
  ∀ c ∈ rest.head?, c.isDigit = false ∧ c ≠ '.' ∧ c ≠ 'e' ∧ c ≠ 'E'

theorem ends_nil : Ends [] := fun _ h => nomatch h

theorem digits_append (hr : Ends rest) (cs : List Char) :
    digits (cs ++ rest) = ((digits cs).1, (digits cs).2 ++ rest) := by
  induction cs with
  | nil =>
    cases rest with
    | nil => rfl
    | cons c rest => simp [digits, (hr c rfl).1]
  | cons c cs ih =>
    simp only [digits, List.cons_append, Prod.mk.injEq] at ih ⊢
    cases hc : c.isDigit with
    | true => simp [hc, ih.1, ih.2]
    | false => simp [hc]

theorem digits?_append (hr : Ends rest) (h : digits? cs = some (ds, r)) :
    digits? (cs ++ rest) = some (ds, r ++ rest) := by
  simp only [digits?, digits_append hr cs] at h ⊢
  split at h
  · cases h
  next hne =>
    cases h
    exact if_neg hne

theorem whole?_append (hr : Ends rest) (h : whole? cs = some (ds, r)) :
    whole? (cs ++ rest) = some (ds, r ++ rest) := by
  unfold whole? at h ⊢
  cases hd : digits? cs with
  | none =>
    rw [hd] at h
    cases h
  | some p =>
    obtain ⟨ds', r'⟩ := p
    rw [hd] at h
    rw [digits?_append hr hd]
    dsimp only at h ⊢
    split at h
    · cases h
    next hzero =>
      cases h
      exact if_neg hzero

theorem fraction?_append (hr : Ends rest) (h : fraction? cs = some (ds, r)) :
    fraction? (cs ++ rest) = some (ds, r ++ rest) := by
  unfold fraction? at h
  split at h
  next cs' =>
    obtain ⟨⟨ds', r'⟩, hd, heq⟩ := Option.map_eq_some_iff.1 h
    cases heq
    exact Option.map_eq_some_iff.2 ⟨_, digits?_append hr hd, rfl⟩
  next hpoint =>
    cases h
    unfold fraction?
    split
    next cs' heq =>
      cases cs with
      | nil => exact absurd rfl (hr '.' (by rw [← List.nil_append rest, heq]; rfl)).2.1
      | cons c cs => exact absurd (List.cons.inj heq).1 fun e => hpoint cs (e ▸ rfl)
    next => rfl

theorem exponent?_append (hr : Ends rest) (h : exponent? cs = some (ds, r)) :
    exponent? (cs ++ rest) = some (ds, r ++ rest) := by
  cases cs with
  | nil =>
    cases h
    cases rest with
    | nil => rfl
    | cons c rest =>
      have hc := hr c rfl
      simp [exponent?, hc.2.2]
  | cons e cs =>
    simp only [exponent?, List.cons_append] at h ⊢
    split at h
    next he =>
      rw [if_pos he]
      cases cs with
      | nil => cases h
      | cons sign cs =>
        dsimp only [List.cons_append] at h ⊢
        split at h
        next hsign =>
          rw [if_pos hsign]
          obtain ⟨⟨ds', r'⟩, hd, heq⟩ := Option.map_eq_some_iff.1 h
          cases heq
          exact Option.map_eq_some_iff.2 ⟨_, digits?_append hr hd, rfl⟩
        next hsign =>
          rw [if_neg hsign]
          obtain ⟨⟨ds', r'⟩, hd, heq⟩ := Option.map_eq_some_iff.1 h
          cases heq
          exact Option.map_eq_some_iff.2 ⟨_, digits?_append hr hd, rfl⟩
    next he =>
      cases h
      exact if_neg he

/-- A number after its sign. -/
def numberAfter? (sign cs : List Char) : Option (List Char × List Char) := do
  let (whole, cs) ← whole? cs
  let (fraction, cs) ← fraction? cs
  let (exponent, cs) ← exponent? cs
  return (sign ++ whole ++ fraction ++ exponent, cs)

theorem number?_minus (cs : List Char) : number? ('-' :: cs) = numberAfter? ['-'] cs := rfl

theorem number?_of_ne {c : Char} (hc : c ≠ '-') (cs : List Char) :
    number? (c :: cs) = numberAfter? [] (c :: cs) := by
  unfold number?
  split
  next heq =>
    split at heq
    next hsign => exact absurd (List.cons.inj hsign).1 hc
    next =>
      obtain ⟨rfl, rfl⟩ := Prod.mk.inj heq
      rfl

theorem numberAfter?_append {sign : List Char} (hr : Ends rest)
    (h : numberAfter? sign cs = some (ds, r)) :
    numberAfter? sign (cs ++ rest) = some (ds, r ++ rest) := by
  obtain ⟨⟨whole, cs₁⟩, hwhole, h⟩ := Option.bind_eq_some_iff.1 h
  obtain ⟨⟨fraction, cs₂⟩, hfraction, h⟩ := Option.bind_eq_some_iff.1 h
  obtain ⟨⟨exponent, cs₃⟩, hexponent, h⟩ := Option.bind_eq_some_iff.1 h
  cases h
  simp [numberAfter?, whole?_append hr hwhole, fraction?_append hr hfraction,
    exponent?_append hr hexponent]

/-- A number is read up to where it ends. -/
theorem number?_append (hr : Ends rest) (h : number? cs = some (ds, r)) :
    number? (cs ++ rest) = some (ds, r ++ rest) := by
  cases cs with
  | nil => cases h
  | cons c cs =>
    by_cases hc : c = '-'
    · subst hc
      exact numberAfter?_append hr h
    · rw [number?_of_ne hc] at h
      rw [List.cons_append, number?_of_ne hc]
      exact numberAfter?_append hr h

/-- A number begins with a sign or a digit. -/
theorem Literal.head (h : Literal ds) : ∃ c cs, ds = c :: cs ∧ (c = '-' ∨ c.isDigit = true) := by
  cases ds with
  | nil => cases h
  | cons c cs =>
    refine ⟨c, cs, rfl, ?_⟩
    by_cases hc : c = '-'
    · exact .inl hc
    · rw [Literal, number?_of_ne hc] at h
      obtain ⟨_, hwhole, _⟩ := Option.bind_eq_some_iff.1 h
      cases hd : c.isDigit with
      | true => exact .inr rfl
      | false => simp [whole?, digits?, digits, hd] at hwhole

/-! ## Strings -/

/-- One more piece in front of others. -/
def withPiece (p : Piece) (x : List Piece × List Char) : List Piece × List Char := (p :: x.1, x.2)

theorem pieces?_unit {a b c d : Char} {n : Nat} (h : hexUnit? a b c d = some n) (cs : List Char) :
    pieces? ('\\' :: 'u' :: a :: b :: c :: d :: cs) = (pieces? cs).map (withPiece (.unit n)) := by
  rw [pieces?, h]
  cases pieces? cs <;> rfl

theorem pieces?_escaped {e c : Char} (he : e ≠ 'u') (h : escaped? e = some c) (cs : List Char) :
    pieces? ('\\' :: e :: cs) = (pieces? cs).map (withPiece (.char c)) := by
  rw [pieces?, h]
  · cases pieces? cs <;> rfl
  · rintro a b c d rest rfl
    exact absurd rfl he

theorem pieces?_char {c : Char} (hquote : c ≠ '"') (hbackslash : c ≠ '\\') (h : ¬ c.toNat < 32)
    (cs : List Char) : pieces? (c :: cs) = (pieces? cs).map (withPiece (.char c)) := by
  rw [pieces?, if_neg (not_or.2 ⟨hbackslash, h⟩)]
  · rfl
  all_goals simp_all

/-- The control characters have hexadecimal numbers. -/
theorem hexUnit?_control {n : Nat} (h : n < 32) :
    hexUnit? '0' '0' (hexDigit (n / 16)) (hexDigit (n % 16)) = some n := by
  have hall : ∀ n < 32, hexUnit? '0' '0' (hexDigit (n / 16)) (hexDigit (n % 16)) = some n := by
    decide
  exact hall n h

/-- A character that is written in a string is read as one piece that stands for it. -/
theorem exists_piece (c : Char) : ∃ p,
    (∀ cs, pieces? (escape c ++ cs) = (pieces? cs).map (withPiece p)) ∧
      ∀ ps, assemble (p :: ps) = (assemble ps).map (c :: ·) := by
  unfold escape
  split
  next h =>
    subst h
    exact ⟨_, pieces?_escaped (by decide) rfl, fun _ => rfl⟩
  split
  next h =>
    subst h
    exact ⟨_, pieces?_escaped (by decide) rfl, fun _ => rfl⟩
  split
  next h =>
    subst h
    exact ⟨_, pieces?_escaped (by decide) rfl, fun _ => rfl⟩
  split
  next h =>
    subst h
    exact ⟨_, pieces?_escaped (by decide) rfl, fun _ => rfl⟩
  split
  next h =>
    subst h
    exact ⟨_, pieces?_escaped (by decide) rfl, fun _ => rfl⟩
  split
  next h =>
    subst h
    exact ⟨_, pieces?_escaped (by decide) rfl, fun _ => rfl⟩
  split
  next h =>
    subst h
    exact ⟨_, pieces?_escaped (by decide) rfl, fun _ => rfl⟩
  split
  next hcontrol =>
    refine ⟨.unit c.toNat, pieces?_unit (hexUnit?_control hcontrol), fun ps => ?_⟩
    have hhigh : isHighSurrogate c.toNat = false := by
      simp only [isHighSurrogate, Bool.and_eq_false_iff, decide_eq_false_iff_not]
      omega
    have hlow : isLowSurrogate c.toNat = false := by
      simp only [isLowSurrogate, Bool.and_eq_false_iff, decide_eq_false_iff_not]
      omega
    rcases ps with _ | ⟨p | m, ps⟩ <;> simp [assemble, hhigh, hlow, Char.ofNat_toNat]
  next hquote hbackslash _ _ _ _ _ hcontrol =>
    exact ⟨.char c, pieces?_char hquote hbackslash hcontrol, fun _ => rfl⟩

theorem pieces?_escape (s rest : List Char) :
    ∃ ps, pieces? (s.flatMap escape ++ '"' :: rest) = some (ps, rest) ∧ assemble ps = some s := by
  induction s with
  | nil => exact ⟨[], rfl, rfl⟩
  | cons c s ih =>
    obtain ⟨ps, hpieces, htext⟩ := ih
    obtain ⟨p, hp, hc⟩ := exists_piece c
    refine ⟨p :: ps, ?_, ?_⟩
    · rw [List.flatMap_cons, List.append_assoc, hp, hpieces]
      rfl
    · rw [hc, htext]
      rfl

/-- What is written in quotes is read back after the opening one. -/
theorem text?_quotedText (s : JsonText) : ∃ body, quotedText s = '"' :: body ∧
    ∀ rest, text? (body ++ rest) = some (s, rest) := by
  cases s with
  | none =>
    have hwritten : quotedText none = ['"', '\\', 'u', 'd', '8', '0', '0', '"'] := by decide
    refine ⟨['\\', 'u', 'd', '8', '0', '0', '"'], hwritten, fun rest => ?_⟩
    simp [text?, pieces?, hexUnit?, hexValue?, assemble, isHighSurrogate]
  | some s =>
    refine ⟨s.toList.flatMap escape ++ ['"'], rfl, fun rest => ?_⟩
    obtain ⟨ps, hpieces, htext⟩ := pieces?_escape s.toList rest
    rw [List.append_assoc, List.singleton_append, text?, hpieces, Option.map_some]
    dsimp only
    rw [htext, Option.map_some, String.ofList_toList]

/-! ## Values -/

mutual

/-- Whether all numbers of a value are written as numbers are. -/
def Faithful : Json → Prop
  | .number digits => Literal digits
  | .array items => FaithfulItems items
  | .object members => FaithfulMembers members
  | _ => True

def FaithfulItems : List Json → Prop
  | [] => True
  | item :: rest => Faithful item ∧ FaithfulItems rest

def FaithfulMembers : List (JsonText × Json) → Prop
  | [] => True
  | (_, value) :: rest => Faithful value ∧ FaithfulMembers rest

end

theorem faithfulItems_iff {items : List Json} :
    FaithfulItems items ↔ ∀ item ∈ items, Faithful item := by
  induction items with
  | nil => simp [FaithfulItems]
  | cons item rest ih => simp [FaithfulItems, ih]

theorem faithfulMembers_iff {members : List (JsonText × Json)} :
    FaithfulMembers members ↔ ∀ m ∈ members, Faithful m.2 := by
  induction members with
  | nil => simp [FaithfulMembers]
  | cons m rest ih => simp [FaithfulMembers, ih]

theorem ends_cons {c : Char} (h : c = ',' ∨ c = ']' ∨ c = '\x7d') (rest : List Char) :
    Ends (c :: rest) := by
  rintro _ ⟨⟩
  rcases h with rfl | rfl | rfl <;> decide

theorem ends_printItems (items : List Json) (rest : List Char) :
    Ends (printItems items ++ rest) := by
  cases items with
  | nil => exact ends_cons (.inr (.inl rfl)) rest
  | cons => exact ends_cons (.inl rfl) _

theorem ends_printMembers (members : List (JsonText × Json)) (rest : List Char) :
    Ends (printMembers members ++ rest) := by
  cases members with
  | nil => exact ends_cons (.inr (.inr rfl)) rest
  | cons => exact ends_cons (.inl rfl) _

/-- The first character of a number is none that any other value begins with. -/
theorem ne_of_number {c d : Char} (hc : c = '-' ∨ c.isDigit = true)
    (hd : (d == '-' || d.isDigit) = false) : c ≠ d := by
  rintro rfl
  simp only [Bool.or_eq_false_iff, beq_eq_false_iff_ne] at hd
  rcases hc with hminus | hdigit
  · exact hd.1 hminus
  · exact Bool.noConfusion (hdigit.symm.trans hd.2)

theorem isBlank_of_number {c : Char} (hc : c = '-' ∨ c.isDigit = true) : isBlank c = false := by
  simp only [isBlank, Bool.or_eq_false_iff, beq_eq_false_iff_ne]
  exact ⟨⟨⟨ne_of_number hc (by decide), ne_of_number hc (by decide)⟩,
    ne_of_number hc (by decide)⟩, ne_of_number hc (by decide)⟩

theorem skipBlanks_cons {c : Char} (hc : isBlank c = false) (cs : List Char) :
    skipBlanks (c :: cs) = c :: cs := by
  rw [skipBlanks, List.dropWhile_cons, if_neg (Bool.eq_false_iff.1 hc)]

/-- A number is not taken for any other value. -/
theorem value?_number (h : Literal ds) (hr : Ends rest) (fuel : Nat) :
    value? (fuel + 1) (ds ++ rest) = some (.number ds, rest) := by
  have hread : number? (ds ++ rest) = some (ds, rest) := number?_append hr h
  obtain ⟨c, cs, rfl, hc⟩ := h.head
  rw [List.cons_append] at hread ⊢
  rw [value?, skipBlanks_cons (isBlank_of_number hc)]
  have hother : ∀ {d : Char} {t : List Char}, c :: (cs ++ rest) = d :: t →
      (d == '-' || d.isDigit) ≠ false := fun heq hd =>
    ne_of_number hc hd (List.cons.inj heq).1
  split
  next heq => exact absurd rfl (hother heq)
  next heq => exact absurd rfl (hother heq)
  next heq => exact absurd rfl (hother heq)
  next heq => exact absurd rfl (hother heq)
  next heq => exact absurd rfl (hother heq)
  next heq => exact absurd rfl (hother heq)
  next => rw [hread, Option.map_some]

/-- The first character of a value is no blank and no closing bracket. -/
theorem print_head {j : Json} (h : Faithful j) :
    ∃ c cs, j.print = c :: cs ∧ isBlank c = false ∧ c ≠ ']' := by
  cases j with
  | null => exact ⟨'n', _, rfl, by decide, by decide⟩
  | bool b => cases b <;> exact ⟨_, _, rfl, by decide, by decide⟩
  | number digits =>
    obtain ⟨c, cs, hdigits, hc⟩ := Literal.head h
    exact ⟨c, cs, hdigits, isBlank_of_number hc, ne_of_number hc (by decide)⟩
  | string t =>
    obtain ⟨body, hbody, _⟩ := text?_quotedText t
    exact ⟨'"', body, hbody, by decide, by decide⟩
  | array items => cases items <;> exact ⟨'[', _, rfl, by decide, by decide⟩
  | object members => cases members <;> exact ⟨'\x7b', _, rfl, by decide, by decide⟩

/-! What the reader does at each mark. -/

section Marks

variable {fuel : Nat} {c : Char} {items : List Json} {members : List (JsonText × Json)}
  {item value : Json} {name : JsonText} {cs rest' : List Char}

theorem value?_string {t : JsonText} (h : text? cs = some (t, rest)) :
    value? (fuel + 1) ('"' :: cs) = some (.string t, rest) := by
  have hstep : value? (fuel + 1) ('"' :: cs) =
      (text? cs).map fun p => (.string p.1, p.2) := rfl
  rw [hstep, h]
  rfl

theorem value?_array (hc : isBlank c = false) (hclose : c ≠ ']')
    (h : items? fuel (c :: cs) = some (items, rest)) :
    value? (fuel + 1) ('[' :: c :: cs) = some (.array items, rest) := by
  have hopen : skipBlanks ('[' :: c :: cs) = '[' :: c :: cs := rfl
  simp only [value?, hopen, skipBlanks_cons hc]
  split
  next heq => exact absurd (List.cons.inj heq).1 hclose
  next =>
    rw [h]
    rfl

theorem value?_object (h : members? fuel ('"' :: cs) = some (members, rest)) :
    value? (fuel + 1) ('\x7b' :: '"' :: cs) = some (.object members, rest) := by
  have hstep : value? (fuel + 1) ('\x7b' :: '"' :: cs) =
      (members? fuel ('"' :: cs)).map fun p => (.object p.1, p.2) := rfl
  rw [hstep, h]
  rfl

theorem items?_last (h : value? fuel cs = some (item, ']' :: rest)) :
    items? (fuel + 1) cs = some ([item], rest) := by
  rw [items?, h]
  rfl

theorem items?_cons (h : value? fuel cs = some (item, ',' :: rest))
    (hrest : items? fuel rest = some (items, rest')) :
    items? (fuel + 1) cs = some (item :: items, rest') := by
  have hcomma : skipBlanks (',' :: rest) = ',' :: rest := rfl
  simp only [items?, h, hcomma, hrest, Option.map_some]

theorem members?_last (hname : text? cs = some (name, ':' :: rest))
    (h : value? fuel rest = some (value, '\x7d' :: rest')) :
    members? (fuel + 1) ('"' :: cs) = some ([(name, value)], rest') := by
  have hquote : skipBlanks ('"' :: cs) = '"' :: cs := rfl
  have hcolon : skipBlanks (':' :: rest) = ':' :: rest := rfl
  have hbrace : skipBlanks ('\x7d' :: rest') = '\x7d' :: rest' := rfl
  simp only [members?, hquote, hname, hcolon, h, hbrace]

theorem members?_cons {rest'' : List Char} (hname : text? cs = some (name, ':' :: rest))
    (h : value? fuel rest = some (value, ',' :: rest'))
    (hrest : members? fuel rest' = some (members, rest'')) :
    members? (fuel + 1) ('"' :: cs) = some ((name, value) :: members, rest'') := by
  have hquote : skipBlanks ('"' :: cs) = '"' :: cs := rfl
  have hcolon : skipBlanks (':' :: rest) = ':' :: rest := rfl
  have hcomma : skipBlanks (',' :: rest') = ',' :: rest' := rfl
  simp only [members?, hquote, hname, hcolon, h, hcomma, hrest, Option.map_some]

end Marks

mutual

/-- A value is read where it is printed, if there is fuel for its length. -/
theorem value?_print : ∀ (j : Json) (rest : List Char) (fuel : Nat), Faithful j → Ends rest →
    2 * j.print.length ≤ fuel → value? fuel (j.print ++ rest) = some (j, rest)
  | j, rest, 0, h, _, hfuel => by
    obtain ⟨c, cs, hprint, _⟩ := print_head h
    rw [hprint, List.length_cons] at hfuel
    omega
  | .null, rest, fuel + 1, _, _, _ => rfl
  | .bool true, rest, fuel + 1, _, _, _ => rfl
  | .bool false, rest, fuel + 1, _, _, _ => rfl
  | .number digits, rest, fuel + 1, h, hr, _ => value?_number h hr fuel
  | .string t, rest, fuel + 1, _, _, _ => by
    obtain ⟨body, hbody, hread⟩ := text?_quotedText t
    rw [print, hbody]
    exact value?_string (hread rest)
  | .array [], rest, fuel + 1, _, _, _ => rfl
  | .array (item :: items), rest, fuel + 1, h, _, hfuel => by
    simp only [print, List.cons_append, List.length_cons, List.length_append] at hfuel
    have hitems := items?_print item items rest fuel h.1 h.2 (by omega)
    obtain ⟨c, cs, hprint, hblank, hclose⟩ := print_head h.1
    rw [print]
    rw [hprint] at hitems ⊢
    exact value?_array hblank hclose hitems
  | .object [], rest, fuel + 1, _, _, _ => rfl
  | .object ((name, value) :: members), rest, fuel + 1, h, _, hfuel => by
    simp only [print, List.cons_append, List.length_cons, List.length_append] at hfuel
    have hmembers := members?_print name value members rest fuel h.1 h.2 (by omega)
    obtain ⟨body, hbody, _⟩ := text?_quotedText name
    rw [print]
    rw [hbody] at hmembers ⊢
    exact value?_object hmembers

theorem items?_print : ∀ (item : Json) (items : List Json) (rest : List Char) (fuel : Nat),
    Faithful item → FaithfulItems items →
    2 * (item.print.length + (printItems items).length) ≤ fuel + 1 →
    items? fuel (item.print ++ printItems items ++ rest) = some (item :: items, rest)
  | item, items, rest, 0, h, _, hfuel => by
    obtain ⟨c, cs, hprint, _⟩ := print_head h
    rw [hprint, List.length_cons] at hfuel
    omega
  | item, [], rest, fuel + 1, h, _, hfuel => by
    simp only [printItems, List.length_singleton] at hfuel
    rw [List.append_assoc]
    exact items?_last (value?_print item _ fuel h (ends_printItems [] rest) (by omega))
  | item, next :: items, rest, fuel + 1, h, hs, hfuel => by
    simp only [printItems, List.cons_append, List.length_cons, List.length_append] at hfuel
    rw [List.append_assoc]
    exact items?_cons (value?_print item _ fuel h (ends_printItems (next :: items) rest) (by omega))
      (items?_print next items rest fuel hs.1 hs.2 (by omega))

theorem members?_print : ∀ (name : JsonText) (value : Json) (members : List (JsonText × Json))
    (rest : List Char) (fuel : Nat), Faithful value → FaithfulMembers members →
    2 * ((quotedText name).length + value.print.length + (printMembers members).length) ≤ fuel →
    members? fuel (quotedText name ++ ':' :: value.print ++ printMembers members ++ rest) =
      some ((name, value) :: members, rest)
  | name, value, members, rest, 0, h, _, hfuel => by
    obtain ⟨c, cs, hprint, _⟩ := print_head h
    rw [hprint, List.length_cons] at hfuel
    omega
  | name, value, [], rest, fuel + 1, h, _, hfuel => by
    obtain ⟨body, hbody, hread⟩ := text?_quotedText name
    simp only [hbody, printMembers, List.length_cons] at hfuel
    rw [hbody, List.append_assoc, List.append_assoc]
    exact members?_last (hread _)
      (value?_print value _ fuel h (ends_printMembers [] rest) (by omega))
  | name, value, (name', value') :: members, rest, fuel + 1, h, hs, hfuel => by
    obtain ⟨body, hbody, hread⟩ := text?_quotedText name
    simp only [hbody, printMembers, List.cons_append, List.length_cons, List.length_append]
      at hfuel
    rw [hbody, List.append_assoc, List.append_assoc]
    exact members?_cons (hread _)
      (value?_print value _ fuel h (ends_printMembers ((name', value') :: members) rest)
        (by omega))
      (members?_print name' value' members rest fuel hs.1 hs.2 (by omega))

end

/-- The compact text of a value stands for that value. -/
theorem parse?_render {j : Json} (h : Faithful j) : parse? j.render = some j := by
  have hread := value?_print j [] (2 * j.print.length + 1) h ends_nil (Nat.le_succ _)
  rw [List.append_nil] at hread
  simp only [parse?, render, String.toList_ofList, hread]
  rfl

end Arcbase.Json
