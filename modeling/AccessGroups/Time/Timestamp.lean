import AccessGroups.Text.Decimal

/-!
# Points in time

A point in time counts seconds from the beginning of 1970 and nanoseconds beyond them. It is written
as a date and a time of day in the Gregorian calendar, with as few digits for the fraction of a
second as hold its value in groups of three. A billion nanoseconds and more belong to a leap second,
which is written as the second after the one that is counted.

## Main definitions

* `Timestamp`: seconds and nanoseconds.
* `Date.ofDays`: the date so many days after the beginning of 1970.
* `Timestamp.text`: the written form.
-/

namespace AccessGroups

/-- A point in time. -/
structure Timestamp where
  seconds : Int
  nanos : Nat
  deriving DecidableEq

/-- A date of the Gregorian calendar, extended to all years. -/
structure Date where
  year : Int
  month : Nat
  day : Nat
  deriving DecidableEq

namespace Date

/-- The date so many days after 1970-01-01. Years are counted from March within eras of 400 years,
so that the day that may be missing is the last one of a year. -/
def ofDays (days : Int) : Date :=
  let shifted := days + 719468
  let era := Int.fdiv shifted 146097
  let dayOfEra := (Int.fmod shifted 146097).toNat
  let yearOfEra := (dayOfEra - dayOfEra / 1460 + dayOfEra / 36524 - dayOfEra / 146096) / 365
  let dayOfYear := dayOfEra - (365 * yearOfEra + yearOfEra / 4 - yearOfEra / 100)
  let monthFromMarch := (5 * dayOfYear + 2) / 153
  let month := if monthFromMarch < 10 then monthFromMarch + 3 else monthFromMarch - 9
  { year := era * 400 + yearOfEra + if month ≤ 2 then 1 else 0
    month := month
    day := dayOfYear - (153 * monthFromMarch + 2) / 5 + 1 }

end Date

namespace Timestamp

/-- A number with at least `width` digits. -/
def padded (width n : Nat) : List Char :=
  let ds := Decimal.ofNat n
  List.replicate (width - ds.length) '0' ++ ds

/-- A year: four digits from 0 to 9999, a sign and at least four digits outside. -/
def yearChars (year : Int) : List Char :=
  if 0 ≤ year ∧ year ≤ 9999 then padded 4 year.toNat
  else (if year < 0 then '-' else '+') :: padded 4 year.natAbs

/-- The fraction of a second: nothing, or a point and three, six or nine digits. -/
def fractionChars (nanos : Nat) : List Char :=
  if nanos = 0 then []
  else if nanos % 1000000 = 0 then '.' :: padded 3 (nanos / 1000000)
  else if nanos % 1000 = 0 then '.' :: padded 6 (nanos / 1000)
  else '.' :: padded 9 nanos

/-- The nanoseconds in a second. -/
def nanosPerSecond : Nat := 1000000000

/-- The date, the time of day and a final `Z`. -/
def text (t : Timestamp) : String :=
  let date := Date.ofDays (Int.fdiv t.seconds 86400)
  let s := (Int.fmod t.seconds 86400).toNat
  String.ofList <|
    yearChars date.year ++ '-' :: padded 2 date.month ++ '-' :: padded 2 date.day ++
      'T' :: padded 2 (s / 3600) ++ ':' :: padded 2 (s / 60 % 60) ++
      ':' :: padded 2 (s % 60 + t.nanos / nanosPerSecond) ++
      fractionChars (t.nanos % nanosPerSecond) ++ ['Z']

end Timestamp

end AccessGroups
