import Arcbase.Decimal.Shortest
import Arcbase.Text.Classes
set_option autoImplicit false

/-!
# Instants

An instant is a second of a day, in Coordinated Universal Time, and the
nanoseconds gone since; from a full second upward these mark a leap second.

Its text is the internet date and time format.  It is written with the letter
`Z` and the fewest of 0, 3, 6 or 9 fraction digits that are exact; it is read
more freely: a blank for the letter `T`, blanks around the parts, any offset.
-/

namespace Arcbase.Time

open Arcbase.Text

/-! ## The calendar

Dates of the proleptic Gregorian calendar as day numbers, day zero being
1970-01-01.  Years are counted from March inside, so that the leap day is the
last day of a year; 400 years have 146097 days.
-/

/-- A date. -/
structure Date where
  year : Int
  month : Nat
  day : Nat
  deriving DecidableEq, Repr

/-- Days in 400 years. -/
def daysPerEra : Int := 146097

/-- Day number of the first of March of the year zero. -/
def eraStart : Int := -719468

def isLeap (year : Int) : Bool :=
  year % 4 == 0 && (year % 100 != 0 || year % 400 == 0)

/-- Number of days in a month. -/
def daysInMonth (year : Int) (month : Nat) : Nat :=
  if month = 2 then if isLeap year then 29 else 28
  else if month = 4 ∨ month = 6 ∨ month = 9 ∨ month = 11 then 30
  else 31

/-- Whether the calendar has the date. -/
def Date.isValid (d : Date) : Bool :=
  1 ≤ d.month && d.month ≤ 12 && 1 ≤ d.day && d.day ≤ daysInMonth d.year d.month

/-- Day number of a date. -/
def Date.dayNumber (d : Date) : Int :=
  let y := if d.month ≤ 2 then d.year - 1 else d.year
  let era := y.fdiv 400
  let yearOfEra := y - era * 400
  let month : Int := if 2 < d.month then d.month - 3 else d.month + 9
  let dayOfYear := (153 * month + 2) / 5 + d.day - 1
  let dayOfEra := yearOfEra * 365 + yearOfEra / 4 - yearOfEra / 100 + dayOfYear
  era * daysPerEra + dayOfEra + eraStart

/-- The date of a day number. -/
def Date.ofDayNumber (n : Int) : Date :=
  let z := n - eraStart
  let era := z.fdiv daysPerEra
  let dayOfEra := z - era * daysPerEra
  let yearOfEra :=
    (dayOfEra - dayOfEra / 1460 + dayOfEra / 36524 - dayOfEra / 146096) / 365
  let dayOfYear := dayOfEra - (365 * yearOfEra + yearOfEra / 4 - yearOfEra / 100)
  let shifted := (5 * dayOfYear + 2) / 153
  let day := dayOfYear - (153 * shifted + 2) / 5 + 1
  let month := if shifted < 10 then shifted + 3 else shifted - 9
  let year := yearOfEra + era * 400 + (if month ≤ 2 then 1 else 0)
  { year, month := month.toNat, day := day.toNat }

example : (Date.mk 1970 1 1).dayNumber = 0 := by decide

example : Date.ofDayNumber 19782 = ⟨2024, 2, 29⟩ := by decide

/-! ## Instants of time -/

/-- The least and the greatest year of an instant. -/
def yearRange : Int × Int := (-262143, 262142)

/-- What the parts of an instant keep to. -/
def InRange (day : Int) (second nano : Nat) : Prop :=
  yearRange.1 ≤ (Date.ofDayNumber day).year ∧ (Date.ofDayNumber day).year ≤ yearRange.2 ∧
    second < 86400 ∧ nano < 2000000000 ∧ (1000000000 ≤ nano → second % 60 = 59)

instance (day : Int) (second nano : Nat) : Decidable (InRange day second nano) :=
  inferInstanceAs (Decidable (_ ∧ _ ∧ _ ∧ _ ∧ _))

/-- A point in time. -/
structure Instant where
  day : Int
  second : Nat
  nano : Nat
  inRange : InRange day second nano
  deriving DecidableEq, Repr

namespace Instant

def ofParts? (day : Int) (second nano : Nat) : Option Instant :=
  if h : InRange day second nano then some ⟨day, second, nano, h⟩ else none

/-- The start of 1970. -/
def epoch : Instant := ⟨0, 0, 0, by decide⟩

instance : Inhabited Instant := ⟨epoch⟩

/-! ## Writing -/

/-- A number padded with zeros to a width. -/
def padded (width n : Nat) : List Char :=
  let digits := Decimal.digitsOf n
  List.replicate (width - digits.length) '0' ++ digits

/-- A year; outside 0 to 9999 with its sign. -/
def yearText (year : Int) : List Char :=
  if 0 ≤ year ∧ year ≤ 9999 then padded 4 year.natAbs
  else (if year < 0 then '-' else '+') :: padded 4 year.natAbs

def dateText (t : Instant) : List Char :=
  let date := Date.ofDayNumber t.day
  yearText date.year ++ '-' :: padded 2 date.month ++ '-' :: padded 2 date.day

def fractionText (nano : Nat) : List Char :=
  if nano = 0 then []
  else if nano % 1000000 = 0 then '.' :: padded 3 (nano / 1000000)
  else if nano % 1000 = 0 then '.' :: padded 6 (nano / 1000)
  else '.' :: padded 9 nano

def timeText (t : Instant) : List Char :=
  let second := t.second % 60 + t.nano / 1000000000
  padded 2 (t.second / 3600) ++ ':' :: padded 2 (t.second / 60 % 60) ++ ':' :: padded 2 second ++
    fractionText (t.nano % 1000000000)

/-- The internet date and time format. -/
def format (t : Instant) : String :=
  String.ofList (t.dateText ++ 'T' :: t.timeText ++ ['Z'])

/-- The instant for display. -/
def display (t : Instant) : String :=
  String.ofList (t.dateText ++ ' ' :: t.timeText) ++ " UTC"

/-! ## Reading -/

/-- The value of decimal digits. -/
def valueOf (digits : List Char) : Nat :=
  digits.foldl (fun n c => 10 * n + (c.toNat - '0'.toNat)) 0

/-- A number of one to `limit` digits, and the rest. -/
def number? (limit : Nat) (cs : List Char) : Option (Nat × List Char) :=
  let digits := (cs.take limit).takeWhile Char.isDigit
  if digits.isEmpty then none else some (valueOf digits, cs.drop digits.length)

/-- A number of at most two digits after blanks. -/
def field? (cs : List Char) : Option (Nat × List Char) := number? 2 (skipBlank cs)

/-- The rest after a mark that may have blanks before it. -/
def mark? (mark : Char) (cs : List Char) : Option (List Char) :=
  match skipBlank cs with
  | c :: rest => if c = mark then some rest else none
  | [] => none

/-- A year: four digits at most, or any number after a sign. -/
def year? (cs : List Char) : Option (Int × List Char) :=
  match skipBlank cs with
  | '-' :: rest => (number? rest.length rest).map fun (n, r) => (-(n : Int), r)
  | '+' :: rest => (number? rest.length rest).map fun (n, r) => ((n : Int), r)
  | rest => (number? 4 rest).map fun (n, r) => ((n : Int), r)

/-- The nanoseconds of an optional fraction; digits beyond the ninth are
dropped. -/
def fraction? (cs : List Char) : Option (Nat × List Char) :=
  match cs with
  | '.' :: rest =>
    (number? 9 rest).map fun (n, r) =>
      (n * Nat.pow 10 (9 - (rest.length - r.length)), r.dropWhile Char.isDigit)
  | _ => some (0, cs)

/-- An offset from universal time, in seconds. -/
def offset? (cs : List Char) : Option (Int × List Char) :=
  match skipBlank cs with
  | c :: rest =>
    if c = 'Z' ∨ c = 'z' then some (0, rest)
    else if ((c :: rest).take 3).map Char.toUpper = ['U', 'T', 'C'] then some (0, rest.drop 2)
    else if c = '+' ∨ c = '-' ∨ c = '\u2212' then
      match rest with
      | h₁ :: h₂ :: rest =>
        match rest.dropWhile fun c => c == ':' || isBlank c with
        | m₁ :: m₂ :: rest =>
          if [h₁, h₂, m₁, m₂].all Char.isDigit ∧ m₁ ≤ '5' then
            let seconds : Int := valueOf [h₁, h₂] * 3600 + valueOf [m₁, m₂] * 60
            some (if c = '+' then seconds else -seconds, rest)
          else none
        | _ => none
      | _ => none
    else none
  | [] => none

/-- The instant of a local date and time at an offset. -/
def ofLocal? (date : Date) (hour minute second nano : Nat) (offset : Int) : Option Instant :=
  if date.isValid ∧ yearRange.1 ≤ date.year ∧ date.year ≤ yearRange.2 ∧ hour ≤ 23 ∧ minute ≤ 59 ∧
      second ≤ 60 ∧ offset.natAbs < 86400 then
    let leap := second / 60
    let total := (hour * 3600 + minute * 60 + (second - leap) : Nat) - offset
    ofParts? (date.dayNumber + total.fdiv 86400) (total.fmod 86400).toNat
      (nano + leap * 1000000000)
  else none

/-- The instant that a text stands for. -/
def parse? (s : String) : Option Instant := do
  let (year, cs) ← year? s.toList
  let (month, cs) ← field? (← mark? '-' cs)
  let (day, cs) ← field? (← mark? '-' cs)
  let cs ← match cs with
    | c :: rest => if c = 't' ∨ c = 'T' ∨ c = ' ' then some rest else none
    | [] => none
  let (hour, cs) ← field? cs
  let (minute, cs) ← field? (← mark? ':' cs)
  let (second, cs) ← field? (← mark? ':' cs)
  let (nano, cs) ← fraction? cs
  let (offset, cs) ← offset? cs
  if (skipBlank cs).isEmpty then ofLocal? ⟨year, month, day⟩ hour minute second nano offset
  else none

end Instant

end Arcbase.Time
