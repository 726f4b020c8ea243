import SchemaDocs.Numeral

/-!
# Days and times

Calendar days and points in time: which of them exist, how they are written, and how they compare.
-/

namespace SchemaDocs

/-- A day of the Gregorian calendar. -/
structure Date where
  year : Nat
  month : Nat
  day : Nat
deriving DecidableEq

/-- A point in time, with the offset of its zone from universal time in minutes if it has one. -/
structure Timestamp where
  date : Date
  hour : Nat
  minute : Nat
  second : Nat
  microsecond : Nat
  offset : Option Int
deriving DecidableEq

namespace Date

def isLeap (year : Nat) : Bool := year % 4 == 0 && (year % 100 != 0 || year % 400 == 0)

def daysIn (year month : Nat) : Nat :=
  if month == 2 then (if isLeap year then 29 else 28)
  else if month == 4 || month == 6 || month == 9 || month == 11 then 30
  else 31

/-- The day exists, in a year of at most four digits. -/
def isValid (d : Date) : Bool :=
  1 ≤ d.year && d.year ≤ 9999 && 1 ≤ d.month && d.month ≤ 12 &&
  1 ≤ d.day && d.day ≤ daysIn d.year d.month

def daysBefore (year month : Nat) : Nat :=
  ((List.range month).drop 1).foldl (fun sum m => sum + daysIn year m) 0

/-- The number of the day, counted from the first day of the year 1. -/
def number (d : Date) : Nat :=
  let y := d.year - 1
  y * 365 + y / 4 - y / 100 + y / 400 + daysBefore d.year d.month + d.day

/-- The day in the form `2001-12-14`. -/
def text (d : Date) : List Char :=
  Numeral.decimalFixed 4 d.year ++ '-' :: (Numeral.decimalFixed 2 d.month ++
    '-' :: Numeral.decimalFixed 2 d.day)

end Date

namespace Timestamp

/-- The day and the time of day exist, and the offset is less than a day. -/
def isValid (t : Timestamp) : Bool :=
  t.date.isValid && t.hour < 24 && t.minute < 60 && t.second < 60 && t.microsecond < 1000000 &&
  match t.offset with
  | none => true
  | some minutes => minutes.natAbs < 1440

/-- The microseconds from the start of the day 0 to the point in time as its own clock shows it. -/
def clock (t : Timestamp) : Int :=
  ((((t.date.number * 24 + t.hour) * 60 + t.minute) * 60 + t.second) * 1000000 + t.microsecond : Nat)

/-- The microseconds from the start of the day 0 in universal time; in its own time if the point
in time has no zone. -/
def instant (t : Timestamp) : Int := t.clock - t.offset.getD 0 * 60000000

/-- The two are the same point in time. One with a zone never is one without. -/
def sameInstant (a b : Timestamp) : Bool :=
  a.offset.isSome == b.offset.isSome && a.instant == b.instant

/-- An offset in the form `+02:00`. -/
def offsetText (minutes : Int) : List Char :=
  (if minutes < 0 then '-' else '+') :: (Numeral.decimalFixed 2 (minutes.natAbs / 60) ++
    ':' :: Numeral.decimalFixed 2 (minutes.natAbs % 60))

/-- The point in time in the form `2001-12-14 21:59:43.100000-05:00`. The fraction is left out if it
is zero, and the offset if there is no zone. -/
def text (t : Timestamp) : List Char :=
  t.date.text ++ ' ' :: (Numeral.decimalFixed 2 t.hour ++ ':' :: (Numeral.decimalFixed 2 t.minute ++
    ':' :: Numeral.decimalFixed 2 t.second)) ++
  (if t.microsecond = 0 then [] else '.' :: Numeral.decimalFixed 6 t.microsecond) ++
  (match t.offset with
    | none => []
    | some minutes => offsetText minutes)

end Timestamp

end SchemaDocs
