/-!
# The calendar

Days are counted from 1970-01-01 in the proleptic Gregorian calendar.  Years are counted from
March, so that the leap day is the last day of its year and the lengths of the months follow one
linear rule.

## Main definitions

* `Date` — year, month and day of the month.
* `Date.exists?` — does the calendar have this day?
* `Date.toDays`, `Date.ofDays` — the day count of a date, and back.
-/

namespace Perdure

/-- A day of the calendar. -/
structure Date where
  year : Int
  month : Nat
  day : Nat
deriving DecidableEq, Repr

namespace Date

/-- Every fourth year is a leap year, but of the centuries only every fourth. -/
def isLeapYear (year : Int) : Bool :=
  year % 4 = 0 && (year % 100 ≠ 0 || year % 400 = 0)

/-- The number of days of a month. -/
def monthLength (year : Int) (month : Nat) : Nat :=
  match month with
  | 4 | 6 | 9 | 11 => 30
  | 2 => if isLeapYear year then 29 else 28
  | _ => 31

/-- Does the calendar have this day? -/
def exists? (d : Date) : Bool :=
  1 ≤ d.month && d.month ≤ 12 && 1 ≤ d.day && d.day ≤ monthLength d.year d.month

/-- Days of the 400 year cycle that repeats for ever. -/
def cycleDays : Nat := 146097

/-- The day number of 0000-03-01, where the counting of years from March begins. -/
def marchOrigin : Int := -719468

/-- The days from 1970-01-01 to a date. -/
def toDays (d : Date) : Int :=
  let year := if d.month ≤ 2 then d.year - 1 else d.year
  let cycle := year.fdiv 400
  let yearOfCycle := (year - cycle * 400).toNat
  let monthFromMarch := (d.month + 9) % 12
  let dayOfYear := (153 * monthFromMarch + 2) / 5 + d.day - 1
  let dayOfCycle := yearOfCycle * 365 + yearOfCycle / 4 - yearOfCycle / 100 + dayOfYear
  cycle * cycleDays + dayOfCycle + marchOrigin

/-- The date that lies the given number of days after 1970-01-01. -/
def ofDays (days : Int) : Date :=
  let fromMarch := days - marchOrigin
  let cycle := fromMarch.fdiv cycleDays
  let dayOfCycle := (fromMarch - cycle * cycleDays).toNat
  let yearOfCycle :=
    (dayOfCycle - dayOfCycle / 1460 + dayOfCycle / 36524 - dayOfCycle / 146096) / 365
  let dayOfYear := dayOfCycle - (365 * yearOfCycle + yearOfCycle / 4 - yearOfCycle / 100)
  let monthFromMarch := (5 * dayOfYear + 2) / 153
  let day := dayOfYear - (153 * monthFromMarch + 2) / 5 + 1
  let month := if monthFromMarch < 10 then monthFromMarch + 3 else monthFromMarch - 9
  let year := cycle * 400 + yearOfCycle
  ⟨if month ≤ 2 then year + 1 else year, month, day⟩

end Date

end Perdure
