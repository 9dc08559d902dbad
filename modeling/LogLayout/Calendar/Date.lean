/-!
# Calendar dates

Days are named by the Gregorian calendar, which is carried on without bounds in both directions and
has a year zero. Every fourth year is a leap year, but of the years that end a century only every
fourth.
-/

namespace LogLayout.Calendar

structure Date where
  year : Int
  month : Nat
  day : Nat
  deriving DecidableEq, Repr

def IsLeapYear (year : Int) : Prop :=
  year % 4 = 0 ∧ (year % 100 ≠ 0 ∨ year % 400 = 0)

instance (year : Int) : Decidable (IsLeapYear year) :=
  inferInstanceAs (Decidable (_ ∧ _))

def daysInMonth (year : Int) (month : Nat) : Nat :=
  match month with
  | 2 => if IsLeapYear year then 29 else 28
  | 4 | 6 | 9 | 11 => 30
  | _ => 31

/-- The days from the first day of year one to that of the year. -/
def daysBeforeYear (year : Int) : Int :=
  365 * (year - 1) + (year - 1) / 4 - (year - 1) / 100 + (year - 1) / 400

/-- The days of a year before a month of it. -/
def daysBeforeMonth (year : Int) : Nat → Nat
  | 0 => 0
  | 1 => 0
  | month + 2 => daysBeforeMonth year (month + 1) + daysInMonth year (month + 1)

/-- The days from the first day of year one to 1970-01-01. -/
def daysBeforeEpoch : Int := 719162

namespace Date

/-- The calendar has the date. -/
structure IsValid (d : Date) : Prop where
  one_le_month : 1 ≤ d.month
  month_le : d.month ≤ 12
  one_le_day : 1 ≤ d.day
  day_le : d.day ≤ daysInMonth d.year d.month

/-- The days from 1970-01-01 to the date. -/
def dayNumber (d : Date) : Int :=
  daysBeforeYear d.year + daysBeforeMonth d.year d.month + (d.day - 1 : Nat) - daysBeforeEpoch

example : dayNumber ⟨1970, 1, 1⟩ = 0 := by decide
example : dayNumber ⟨2000, 2, 29⟩ = 11016 := by decide
example : dayNumber ⟨0, 3, 1⟩ = -719468 := by decide

end Date

end LogLayout.Calendar
