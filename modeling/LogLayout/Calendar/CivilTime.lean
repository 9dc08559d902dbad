import LogLayout.Calendar.Date
import LogLayout.Instant

/-!
# Civil time

A date and the time on a clock, for days of 24 hours.
-/

namespace LogLayout.Calendar

structure CivilTime where
  date : Date
  hour : Nat
  minute : Nat
  second : Nat
  nanosecond : Nat
  deriving DecidableEq, Repr

namespace CivilTime

/-- The calendar has the date, and the clock shows the time. -/
structure IsValid (c : CivilTime) : Prop where
  date : c.date.IsValid
  hour_lt : c.hour < 24
  minute_lt : c.minute < 60
  second_lt : c.second < 60
  nanosecond_lt : c.nanosecond < nanosPerSecond

/-- When it is in universal time. -/
def instant (c : CivilTime) : Instant :=
  .ofSeconds (((c.date.dayNumber * 24 + c.hour) * 60 + c.minute) * 60 + c.second) c.nanosecond

end CivilTime

/-- The digits of a number with zeros before them up to the width. -/
def zeroPadded (width n : Nat) : List Char :=
  let digits := Nat.toDigits 10 n
  List.replicate (width - digits.length) '0' ++ digits

end LogLayout.Calendar
