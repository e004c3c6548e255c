/-!
# The calendar

A moment is a second of the years 1 to 9999 of the Gregorian calendar, extended to all of them. It
is counted from the start of year 1, so moments are compared and moved by counting; its year, month,
day and time of day are its reading. No format has a field for parts of a second and no duration has
any, so what is read from a document is a whole second; the parts of a second that a chart built by
hand may give a date are left out.

* `Calendar.Reading`: a date and time of day; `Calendar.Reading.seconds` counts its seconds.
* `Moment`: a second that some year holds; `Moment.reading` and `Moment.ofReading?` go to its date
  and time and back, and `Moment.add?` moves it.
-/

namespace DiagramText

namespace Calendar

/-! ### Years and months -/

/-- Whether a `year` has a 29th of February, by the rule of the Gregorian calendar for all years. -/
def isLeap (year : Nat) : Bool := year % 4 == 0 && (year % 100 != 0 || year % 400 == 0)

/-- The number of days in the years from 1 up to `year`, without it. -/
def daysBefore (year : Nat) : Nat :=
  let y := year - 1
  365 * y + y / 4 - y / 100 + y / 400

/-- The lengths of the months of a `year`, January first. -/
def monthLengths (year : Nat) : List Nat :=
  [31, if isLeap year then 29 else 28, 31, 30, 31, 30, 31, 31, 30, 31, 30, 31]

/-- The year that holds a `day`, and the day in it, both days counted from zero. Leap years repeat
after 400 years; of the centuries in between the last is a day longer, and so is the last year of
four. -/
def yearOf (day : Nat) : Nat × Nat :=
  let cycles := day / 146097
  let inCycle := day % 146097
  let centuries := min 3 (inCycle / 36524)
  let inCentury := inCycle - 36524 * centuries
  let fours := inCentury / 1461
  let inFour := inCentury % 1461
  let years := min 3 (inFour / 365)
  (400 * cycles + 100 * centuries + 4 * fours + years + 1, inFour - 365 * years)

/-- The month that holds a day of the year, and the day of the month, by the lengths of the months
from `month` on. The day of the year is counted from zero, month and day from one. -/
def monthOf (month : Nat) : List Nat → Nat → Nat × Nat
  | [], day => (month, day + 1)
  | length :: lengths, day =>
    if day < length then (month, day + 1) else monthOf (month + 1) lengths (day - length)

/-- A date and a time of day as they are written. There need not be such a date; `isValid` tells. -/
structure Reading where
  year : Nat := 1900
  month : Nat := 1
  day : Nat := 1
  hour : Nat := 0
  minute : Nat := 0
  second : Nat := 0
deriving DecidableEq, Repr

namespace Reading

/-- Whether there is such a date and time `r`, the years being those from 1 to 9999. -/
def isValid (r : Reading) : Bool :=
  1 ≤ r.year && r.year ≤ 9999 && 1 ≤ r.month &&
    ((monthLengths r.year)[r.month - 1]?.any fun length => 1 ≤ r.day && r.day ≤ length) &&
    r.hour < 24 && r.minute < 60 && r.second < 60

/-- The number of days before a date, from the start of year 1, by `daysBefore` and the months
before it. -/
def days (r : Reading) : Nat :=
  ((monthLengths r.year).take (r.month - 1)).foldl (· + ·) (daysBefore r.year) + (r.day - 1)

/-- The number of seconds before a date and time `r`, from the start of year 1. No second is a leap
second. -/
def seconds (r : Reading) : Nat := 86400 * r.days + 3600 * r.hour + 60 * r.minute + r.second

end Reading

/-- The number of seconds in the years from 1 to 9999, which bounds all moments. -/
def limit : Nat := 86400 * 3652059

end Calendar

open Calendar

/-- A second of the years 1 to 9999, counted from their start by `seconds`. Moments are whole
seconds: the microseconds that a date and time of a chart built by hand may carry are not modelled.
-/
structure Moment where
  seconds : Nat
  inRange : seconds < limit
deriving DecidableEq, Repr

namespace Moment

/-- The moment at a count `n` of seconds, if the years reach so far. -/
def ofSeconds? (n : Nat) : Option Moment := if h : n < limit then some ⟨n, h⟩ else none

/-- The moment at a date and time `r`, if there is such a date and time. -/
def ofReading? (r : Calendar.Reading) : Option Moment :=
  if r.isValid then ofSeconds? r.seconds else none

/-- The date and time of day of a moment, found by division. For moments it undoes `ofReading?`. -/
def reading (m : Moment) : Calendar.Reading :=
  let (year, dayOfYear) := yearOf (m.seconds / 86400)
  let (month, day) := monthOf 1 (monthLengths year) dayOfYear
  let time := m.seconds % 86400
  ⟨year, month, day, time / 3600, time / 60 % 60, time % 60⟩

/-- The moment a number of `seconds` later, or earlier if it is negative, if the years reach so
far. -/
def add? (m : Moment) (seconds : Int) : Option Moment :=
  let n : Int := m.seconds + seconds
  if n < 0 then none else ofSeconds? n.toNat

/-- The later of the moments `m` and `n`, the first of them if they are the same. -/
def later (m n : Moment) : Moment := if m.seconds < n.seconds then n else m

/-- The latest of the given moments, if there are any. -/
def latest? : List Moment → Option Moment
  | [] => none
  | m :: ms => some (ms.foldl later m)

end Moment
end DiagramText
