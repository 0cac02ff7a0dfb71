import Turnstile.Calendar.Date

/-!
# Times of day

Whole seconds since midnight, and nanoseconds past them. A second and more of nanoseconds make a
leap second, which may follow any second. The text is what a clock shows, `HH:MM:SS`, with a
fraction of 3, 6 or 9 digits when there is one. There a leap second at the end of a minute is
second 60; one within a minute looks like the second that comes after it.
-/

namespace Turnstile

structure TimeOfDay where
  /-- Whole seconds since midnight. -/
  seconds : Nat
  /-- Nanoseconds past them, those of a leap second included. -/
  nanos : Nat
  seconds_lt : seconds < 86_400
  nanos_lt : nanos < 2_000_000_000
deriving DecidableEq

namespace TimeOfDay

open Text

/-! ### What a clock shows -/

def hour (t : TimeOfDay) : Nat := t.seconds / 3600

def minute (t : TimeOfDay) : Nat := t.seconds / 60 % 60

/-- The second of the minute, one more during a leap second. -/
def second (t : TimeOfDay) : Nat := t.seconds % 60 + t.nanos / 1_000_000_000

/-- Nanoseconds past the second that is shown. -/
def fraction (t : TimeOfDay) : Nat := t.nanos % 1_000_000_000

/-- The time that a clock shows. Second 60 is a leap second, and may follow any minute. -/
def ofClock? (hour minute second fraction : Nat) : Option TimeOfDay :=
  if h : (hour < 24 ∧ minute < 60) ∧ second ≤ 60 ∧ fraction < 1_000_000_000 then
    some {
      seconds := hour * 3600 + minute * 60 + min second 59
      nanos := second / 60 * 1_000_000_000 + fraction
      seconds_lt := by omega
      nanos_lt := by omega }
  else none

def midnight : TimeOfDay := ⟨0, 0, by decide, by decide⟩

instance : Inhabited TimeOfDay := ⟨midnight⟩

/-- Hours, minutes and seconds, two digits each; the fraction is left out. -/
def clockText (t : TimeOfDay) : List Char :=
  Decimal.padded 2 t.hour ++ ':' :: Decimal.padded 2 t.minute ++ ':' :: Decimal.padded 2 t.second

/-- The fewest of 0, 3, 6 and 9 digits that are exact. -/
def fractionText (fraction : Nat) : List Char :=
  if fraction = 0 then []
  else if fraction % 1_000_000 = 0 then '.' :: Decimal.padded 3 (fraction / 1_000_000)
  else if fraction % 1_000 = 0 then '.' :: Decimal.padded 6 (fraction / 1_000)
  else '.' :: Decimal.padded 9 fraction

def text (t : TimeOfDay) : List Char := t.clockText ++ fractionText t.fraction

/-- A fraction of a second, if a point follows: nine digits count and any more are dropped. -/
def readFraction? (s : List Char) : Option (Nat × List Char) :=
  match s with
  | '.' :: rest =>
    match Decimal.upTo? 9 rest with
    | some (n, after) =>
      some (n * Nat.pow 10 (9 - (rest.length - after.length)), after.dropWhile Char.isDigit)
    | none => none
  | _ => some (0, s)

/-- The mark of the minutes or the seconds, and a number below the bound. -/
def readPart? (bound : Nat) (s : List Char) : Option (Nat × List Char) := do
  let s ← Date.readMark? ':' s
  let (n, s) ← Date.readTwo? s
  if n < bound then return (n, s) else none

/-- Seconds and their fraction. -/
def readSeconds? (s : List Char) : Option ((Nat × Nat) × List Char) := do
  let (second, s) ← readPart? 61 s
  let (fraction, s) ← readFraction? s
  return ((second, fraction), s)

/-- Reads a whole text as a time; the seconds may be missing and blanks may follow. -/
def ofText? (s : List Char) : Option TimeOfDay := do
  let (hour, s) ← Date.readTwo? s
  let (minute, s) ← readPart? 60 s
  let ((second, fraction), s) := (readSeconds? s).getD ((0, 0), s)
  if (dropBlanks s).isEmpty then ofClock? hour minute second fraction else none

end TimeOfDay

/-- A date with a time of day, in no particular zone. -/
structure DateTime where
  date : Date
  time : TimeOfDay
deriving DecidableEq, Inhabited

namespace DateTime

open Text

def text (t : DateTime) : List Char := t.date.text ++ 'T' :: t.time.text

/-- Reads a date, the letter `T` and a time with its seconds; blanks may follow. -/
def ofText? (s : List Char) : Option DateTime := do
  let (date, s) ← Date.read? s
  let s ← Date.readMark? 'T' s
  let (hour, s) ← Date.readTwo? s
  let (minute, s) ← TimeOfDay.readPart? 60 s
  let ((second, fraction), s) ← TimeOfDay.readSeconds? s
  let time ← TimeOfDay.ofClock? hour minute second fraction
  if (dropBlanks s).isEmpty then some ⟨date, time⟩ else none

end DateTime

end Turnstile
