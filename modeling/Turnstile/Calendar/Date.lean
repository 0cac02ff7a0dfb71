import Turnstile.Text.Blank
import Turnstile.Text.Decimal

/-!
# Dates

Dates of the proleptic Gregorian calendar, and their text `YYYY-MM-DD`. A year outside `0 .. 9999`
carries a sign. Reading is more lenient than writing: blanks may surround each number, a sign may
stand before any year, and months and days may have one digit.
-/

namespace Turnstile

namespace Calendar

def isLeapYear (year : Int) : Bool :=
  year % 4 == 0 && (year % 100 != 0 || year % 400 == 0)

def daysIn (year : Int) (month : Nat) : Nat :=
  if month == 2 then if isLeapYear year then 29 else 28
  else if month == 4 || month == 6 || month == 9 || month == 11 then 30
  else 31

/-- The calendar runs from the start of the first of these years to the end of the last. -/
def firstYear : Int := -262143

@[inherit_doc firstYear]
def lastYear : Int := 262142

/-- The three numbers name a day of the calendar. -/
def IsDate (year : Int) (month day : Nat) : Prop :=
  (firstYear ≤ year ∧ year ≤ lastYear) ∧ (1 ≤ month ∧ month ≤ 12) ∧
    1 ≤ day ∧ day ≤ daysIn year month

instance (year : Int) (month day : Nat) : Decidable (IsDate year month day) :=
  inferInstanceAs (Decidable (_ ∧ _))

end Calendar

structure Date where
  year : Int
  month : Nat
  day : Nat
  exists_ : Calendar.IsDate year month day
deriving DecidableEq

namespace Date

open Text

def ofYmd? (year : Int) (month day : Nat) : Option Date :=
  if h : Calendar.IsDate year month day then some ⟨year, month, day, h⟩ else none

/-- The start of the count of days used by `ofDays`. -/
def epoch : Date := ⟨1970, 1, 1, by decide⟩

instance : Inhabited Date := ⟨epoch⟩

/-- Four digits suffice for the years `0 .. 9999`; any other year is signed. -/
def yearText (year : Int) : List Char :=
  if 0 ≤ year ∧ year ≤ 9999 then Decimal.padded 4 year.toNat
  else (if year < 0 then '-' else '+') :: Decimal.padded 4 year.natAbs

def text (d : Date) : List Char :=
  yearText d.year ++ '-' :: Decimal.padded 2 d.month ++ '-' :: Decimal.padded 2 d.day

/-- A year: without a sign at most four digits, with one any number of them. -/
def readYear? (s : List Char) : Option (Int × List Char) :=
  match dropBlanks s with
  | '-' :: rest => (Decimal.any? rest).map fun (n, rest) => (-(n : Int), rest)
  | '+' :: rest => (Decimal.any? rest).map fun (n, rest) => ((n : Int), rest)
  | rest => (Decimal.upTo? 4 rest).map fun (n, rest) => ((n : Int), rest)

/-- A number of one or two digits after blanks. -/
def readTwo? (s : List Char) : Option (Nat × List Char) := Decimal.upTo? 2 (dropBlanks s)

/-- The mark `c` after blanks. -/
def readMark? (c : Char) (s : List Char) : Option (List Char) :=
  match dropBlanks s with
  | d :: rest => if d = c then some rest else none
  | [] => none

/-- A date at the head of a text, and what follows it. -/
def read? (s : List Char) : Option (Date × List Char) := do
  let (year, s) ← readYear? s
  let s ← readMark? '-' s
  let (month, s) ← readTwo? s
  let s ← readMark? '-' s
  let (day, s) ← readTwo? s
  let date ← ofYmd? year month day
  return (date, s)

/-- Reads a whole text as a date; blanks may follow it. -/
def ofText? (s : List Char) : Option Date :=
  match read? s with
  | some (date, rest) => if (dropBlanks rest).isEmpty then some date else none
  | none => none

end Date

end Turnstile
