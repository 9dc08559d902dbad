import LogLayout.Calendar.Date

/-!
# A library for times: dates of days

Days are numbered from 1970-01-01. To find the date of a day a year is taken to begin in March, so
that the leap day is its last; the calendar then repeats every 146097 days, which is an era of 400
years.
-/

namespace LogLayout.Bundled

open Calendar (Date)

/-- The days of an era of 400 years. -/
def daysPerEra : Nat := 146097

/-- The days from the first day of the era that holds 1970 to 1970-01-01. -/
def epochShift : Int := 719468

/-- The year of the era, from zero, that holds a day of the era. -/
def yearOfEra (dayOfEra : Nat) : Nat :=
  (dayOfEra - dayOfEra / 1460 + dayOfEra / 36524 - dayOfEra / 146096) / 365

/-- The days of the era before a year of the era. -/
def daysBeforeYearOfEra (yearOfEra : Nat) : Nat :=
  365 * yearOfEra + yearOfEra / 4 - yearOfEra / 100

/-- The month, counted from zero in March, that holds a day of the year. -/
def marchMonth (dayOfYear : Nat) : Nat :=
  (5 * dayOfYear + 2) / 153

/-- The days of the year before a month counted from zero in March. -/
def daysBeforeMarchMonth (month : Nat) : Nat :=
  (153 * month + 2) / 5

def dateOf (number : Int) : Date :=
  let era := (number + epochShift) / daysPerEra
  let dayOfEra := ((number + epochShift) % daysPerEra).toNat
  let yearInEra := yearOfEra dayOfEra
  let dayOfYear := dayOfEra - daysBeforeYearOfEra yearInEra
  let month := marchMonth dayOfYear
  { year := 400 * era + yearInEra + (if month < 10 then 0 else 1)
    month := if month < 10 then month + 3 else month - 9
    day := dayOfYear - daysBeforeMarchMonth month + 1 }

/-- The day of the week, from zero on Sunday. -/
def weekday (number : Int) : Nat :=
  ((number + 4) % 7).toNat

/-- The day of the week, from one on Monday. -/
def isoWeekday (number : Int) : Nat :=
  ((number + 3) % 7).toNat + 1

/-- The day of its year, from one. -/
def dayOfYear (number : Int) : Nat :=
  (number - Date.dayNumber ⟨(dateOf number).year, 1, 1⟩).toNat + 1

/-- The week of the year when weeks begin on Sunday; the days before the first Sunday are in week
zero. -/
def sundayWeek (number : Int) : Nat :=
  (dayOfYear number + 6 - weekday number) / 7

/-- The week of the year when weeks begin on Monday; the days before the first Monday are in week
zero. -/
def mondayWeek (number : Int) : Nat :=
  (dayOfYear number + 7 - isoWeekday number) / 7

/-- The Thursday of the week that begins on Monday; its year is the year of the week. -/
def thursday (number : Int) : Int :=
  number + 4 - isoWeekday number

/-- The year to which the week belongs. -/
def weekYear (number : Int) : Int :=
  (dateOf (thursday number)).year

/-- The number of the week in its year, from one. -/
def isoWeek (number : Int) : Nat :=
  (dayOfYear (thursday number) - 1) / 7 + 1

example : dateOf 11016 = ⟨2000, 2, 29⟩ := by decide
example : dateOf (-719529) = ⟨-1, 12, 31⟩ := by decide

end LogLayout.Bundled
