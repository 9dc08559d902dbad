import LogLayout.Bundled.Date
import LogLayout.Proofs.Calendar.DateOrder
import Mathlib

/-!
# The date of a day

Years and months are found by division; what the divisions find is told by the days before a year or
a month: they find the last year, and the last month, that does not begin behind the day.

Results:
1. `le_yearOfEra_iff`, `le_marchMonth_iff`: the year of an era and the month of a year that hold a
   day, by the days before them.
2. `exists_marchYear`: a day by the first of March before it, in the calendar of leap years.
3. `isValid_dateOf`, `dayNumber_dateOf`: what is found is the date of the day.
-/

namespace LogLayout.Bundled

open Calendar (Date daysBeforeMonth daysBeforeMonth_succ daysBeforeYear_succ daysInMonth)

/-! ## Years of an era -/

/-- The days of an era before a day of it, those left out that make years longer than 365 days. -/
def plainDays (dayOfEra : Nat) : Nat :=
  dayOfEra - dayOfEra / 1460 + dayOfEra / 36524 - dayOfEra / 146096

theorem plainDays_le_succ (d : Nat) : plainDays d ≤ plainDays (d + 1) := by
  have hcycle : (d + 1) / 1460 ≤ d / 1460 + 1 := by omega
  have hcentury : d / 36524 ≤ (d + 1) / 36524 := by omega
  have hera : ∀ n, n / 146096 = n / 36524 / 4 := fun n => by rw [Nat.div_div_eq_div_mul]
  have hle : d / 1460 ≤ d := Nat.div_le_self d 1460
  unfold plainDays
  rw [hera, hera]
  -- the quotients are independent from here on
  generalize d / 1460 = cycles at *
  generalize (d + 1) / 1460 = cycles' at *
  generalize d / 36524 = centuries at *
  generalize (d + 1) / 36524 = centuries' at *
  omega

theorem monotone_plainDays : Monotone plainDays :=
  monotone_nat_of_le_succ plainDays_le_succ

/-- A year of an era by its century, its cycle of four years and its place in it. -/
theorem exists_parts {year : Nat} (h : year < 400) :
    ∃ c q z, c ≤ 3 ∧ q ≤ 24 ∧ z ≤ 3 ∧ year = 100 * c + 4 * q + z :=
  ⟨year / 100, year % 100 / 4, year % 4, by omega, by omega, by omega, by omega⟩

theorem daysBeforeYearOfEra_parts {c q z : Nat} (hq : q ≤ 24) (hz : z ≤ 3) :
    daysBeforeYearOfEra (100 * c + 4 * q + z) = 36524 * c + 1461 * q + 365 * z := by
  have hleap : (100 * c + 4 * q + z) / 4 = 25 * c + q := by omega
  have hcommon : (100 * c + 4 * q + z) / 100 = c := by omega
  unfold daysBeforeYearOfEra
  rw [hleap, hcommon]
  omega

theorem plainDays_daysBeforeYearOfEra {year : Nat} (h : year < 400) :
    plainDays (daysBeforeYearOfEra year) = 365 * year := by
  obtain ⟨c, q, z, hc, hq, hz, rfl⟩ := exists_parts h
  rw [daysBeforeYearOfEra_parts hq hz]
  have hcycles : (36524 * c + 1461 * q + 365 * z) / 1460 = 25 * c + q := by omega
  have hcenturies : (36524 * c + 1461 * q + 365 * z) / 36524 = c := by omega
  have heras : (36524 * c + 1461 * q + 365 * z) / 146096 = 0 := by omega
  unfold plainDays
  rw [hcycles, hcenturies, heras]
  omega

/-- On the day before the year. -/
theorem plainDays_lt {year d : Nat} (h : year < 400) (hd : d + 1 = daysBeforeYearOfEra year) :
    plainDays d < 365 * year := by
  obtain ⟨c, q, z, hc, hq, hz, rfl⟩ := exists_parts h
  rw [daysBeforeYearOfEra_parts hq hz] at hd
  have hcycles : d / 1460 = 25 * c + q := by omega
  have hcenturies : d / 36524 ≤ c := by omega
  have heras : d / 146096 = 0 := by omega
  unfold plainDays
  rw [hcycles, heras]
  omega

theorem le_yearOfEra_iff {year d : Nat} (h : year < 400) :
    year ≤ yearOfEra d ↔ daysBeforeYearOfEra year ≤ d := by
  show year ≤ plainDays d / 365 ↔ _
  rw [Nat.le_div_iff_mul_le (by decide), Nat.mul_comm]
  constructor
  · intro hplain
    by_contra hlt
    obtain ⟨last, hlast⟩ := Nat.exists_eq_add_of_lt (Nat.lt_of_not_le hlt)
    have hle : plainDays d ≤ plainDays (d + last) := monotone_plainDays (Nat.le_add_right d last)
    have := plainDays_lt h hlast.symm
    omega
  · intro hd
    rw [← plainDays_daysBeforeYearOfEra h]
    exact monotone_plainDays hd

theorem yearOfEra_lt {d : Nat} (h : d < daysPerEra) : yearOfEra d < 400 := by
  have hplain : plainDays d ≤ plainDays 146096 := monotone_plainDays (Nat.le_of_lt_succ h)
  show plainDays d / 365 < 400
  rw [Nat.div_lt_iff_lt_mul (by decide)]
  exact Nat.lt_of_le_of_lt hplain (by decide)

theorem lt_daysBeforeYearOfEra {d : Nat} (h : d < daysPerEra) :
    d < daysBeforeYearOfEra (yearOfEra d + 1) + (if yearOfEra d + 1 = 400 then 1 else 0) := by
  by_cases hnext : yearOfEra d + 1 < 400
  · have hlt : ¬ daysBeforeYearOfEra (yearOfEra d + 1) ≤ d := fun hle =>
      Nat.not_succ_le_self _ ((le_yearOfEra_iff hnext).mpr hle)
    omega
  · -- the last year of an era has a leap day of its own
    have hlast := yearOfEra_lt h
    obtain hyear : yearOfEra d = 399 := by omega
    rw [hyear]
    exact h

/-! ## Years -/

/-- An era has one day more than its years would have without the last leap day. -/
theorem dayNumber_firstOfMarch (era : Int) {year : Nat} (h : year ≤ 400) :
    Date.dayNumber ⟨400 * era + year, 3, 1⟩ =
      era * daysPerEra + (daysBeforeYearOfEra year + (if year = 400 then 1 else 0) : Nat) -
        epochShift := by
  have hmonths : daysBeforeMonth (400 * era + year) 3 =
      if Calendar.IsLeapYear (400 * era + year) then 60 else 59 := by
    simp only [daysBeforeMonth, daysInMonth]
    split <;> rfl
  unfold Date.dayNumber
  dsimp only
  rw [hmonths]
  unfold Calendar.daysBeforeYear Calendar.daysBeforeEpoch daysBeforeYearOfEra daysPerEra epochShift
  split
  case isTrue hleap =>
    unfold Calendar.IsLeapYear at hleap
    split <;> omega
  case isFalse hleap =>
    unfold Calendar.IsLeapYear at hleap
    split <;> omega

/-- A day lies between two firsts of March, and its date is found from the year between them and its
distance to the first of the two. -/
theorem exists_marchYear (number : Int) :
    ∃ (year : Int) (day : Nat), number = Date.dayNumber ⟨year, 3, 1⟩ + day ∧
      number < Date.dayNumber ⟨year + 1, 3, 1⟩ ∧
      dateOf number =
        { year := year + (if marchMonth day < 10 then 0 else 1)
          month := if marchMonth day < 10 then marchMonth day + 3 else marchMonth day - 9
          day := day - daysBeforeMarchMonth (marchMonth day) + 1 } := by
  have hd : ((number + epochShift) % daysPerEra).toNat < daysPerEra := by
    unfold daysPerEra
    omega
  have hnumber : number = (number + epochShift) / daysPerEra * daysPerEra +
      ((number + epochShift) % daysPerEra).toNat - epochShift := by
    unfold daysPerEra
    omega
  have hlast := yearOfEra_lt hd
  have hbegins := (le_yearOfEra_iff hlast).mp (Nat.le_refl _)
  have hends := lt_daysBeforeYearOfEra hd
  refine ⟨_, _, ?_, ?_, rfl⟩
  · rw [dayNumber_firstOfMarch _ (Nat.le_of_lt hlast), if_neg (Nat.ne_of_lt hlast)]
    omega
  · have hnext := dayNumber_firstOfMarch ((number + epochShift) / daysPerEra)
      (Nat.succ_le_of_lt hlast)
    rw [Nat.succ_eq_add_one, Int.natCast_add, Int.natCast_one, ← Int.add_assoc] at hnext
    omega

/-! ## Months -/

theorem le_marchMonth_iff {month day : Nat} :
    month ≤ marchMonth day ↔ daysBeforeMarchMonth month ≤ day := by
  unfold marchMonth daysBeforeMarchMonth
  omega

theorem lt_daysBeforeMarchMonth (day : Nat) : day < daysBeforeMarchMonth (marchMonth day + 1) :=
  Nat.lt_of_not_le fun hle => Nat.not_succ_le_self _ (le_marchMonth_iff.mpr hle)

theorem daysBeforeMonth_add_three (year : Int) {month : Nat} (h : month ≤ 10) :
    daysBeforeMonth year (month + 3) = daysBeforeMonth year 3 + daysBeforeMarchMonth month := by
  interval_cases month <;> simp [daysBeforeMonth, daysInMonth, daysBeforeMarchMonth]

/-- January and February end the year that begins in March. -/
theorem dayNumber_nextMarch (year : Int) :
    Date.dayNumber ⟨year + 1, 3, 1⟩ =
      Date.dayNumber ⟨year, 3, 1⟩ + 306 + 31 + daysInMonth (year + 1) 2 := by
  have hmonths : daysBeforeMonth year 13 = daysBeforeMonth year 3 + 306 :=
    daysBeforeMonth_add_three year (Nat.le_refl 10)
  have hnext : daysBeforeMonth (year + 1) 3 = 31 + daysInMonth (year + 1) 2 := rfl
  unfold Date.dayNumber
  dsimp only
  rw [daysBeforeYear_succ, hmonths, hnext]
  omega

/-! ## Dates -/

section Dates

variable {year : Int} {month day : Nat}

/-- From March to December. -/
theorem date_of_spring (hmonth : month < 10) (hfirst : daysBeforeMarchMonth month ≤ day)
    (hlast : day < daysBeforeMarchMonth (month + 1)) :
    Date.IsValid ⟨year, month + 3, day - daysBeforeMarchMonth month + 1⟩ ∧
      Date.dayNumber ⟨year, month + 3, day - daysBeforeMarchMonth month + 1⟩ =
        Date.dayNumber ⟨year, 3, 1⟩ + day := by
  have hbefore := daysBeforeMonth_add_three year (Nat.le_of_lt hmonth)
  have hnext : daysBeforeMonth year (month + 3 + 1) = _ :=
    (congrArg _ (Nat.add_right_comm month 3 1)).trans
      (daysBeforeMonth_add_three year (Nat.succ_le_of_lt hmonth))
  rw [daysBeforeMonth_succ year (show 1 ≤ month + 3 by omega), hbefore] at hnext
  constructor
  · constructor <;> dsimp only <;> omega
  · unfold Date.dayNumber
    dsimp only
    rw [hbefore]
    omega

/-- January and February. -/
theorem date_of_winter (hmonth : 10 ≤ month) (hfirst : daysBeforeMarchMonth month ≤ day)
    (hlast : day < daysBeforeMarchMonth (month + 1))
    (hyear : Date.dayNumber ⟨year, 3, 1⟩ + day < Date.dayNumber ⟨year + 1, 3, 1⟩) :
    Date.IsValid ⟨year + 1, month - 9, day - daysBeforeMarchMonth month + 1⟩ ∧
      Date.dayNumber ⟨year + 1, month - 9, day - daysBeforeMarchMonth month + 1⟩ =
        Date.dayNumber ⟨year, 3, 1⟩ + day := by
  have hends : day < 306 + 31 + daysInMonth (year + 1) 2 := by
    rw [dayNumber_nextMarch] at hyear
    omega
  have hfebruary : daysInMonth (year + 1) 2 ≤ 29 := by
    show (if Calendar.IsLeapYear (year + 1) then 29 else 28) ≤ 29
    split <;> decide
  have hmonths : daysBeforeMonth year 13 = daysBeforeMonth year 3 + 306 :=
    daysBeforeMonth_add_three year (Nat.le_refl 10)
  have hlastMonth : month ≤ 11 := by
    unfold daysBeforeMarchMonth at hfirst
    omega
  unfold Date.dayNumber
  dsimp only
  rw [daysBeforeYear_succ, hmonths]
  obtain rfl | rfl : month = 10 ∨ month = 11 := by omega
  · have hbefore : daysBeforeMonth (year + 1) (10 - 9) = 0 := rfl
    have hdays : daysInMonth (year + 1) (10 - 9) = 31 := rfl
    unfold daysBeforeMarchMonth at hfirst hlast ⊢
    refine ⟨?_, by omega⟩
    constructor <;> dsimp only <;> omega
  · have hbefore : daysBeforeMonth (year + 1) (11 - 9) = 31 := rfl
    have hdays : daysInMonth (year + 1) (11 - 9) = daysInMonth (year + 1) 2 := rfl
    unfold daysBeforeMarchMonth at hfirst hlast ⊢
    refine ⟨?_, by omega⟩
    constructor <;> dsimp only <;> omega

end Dates

theorem isValid_dateOf_and_dayNumber (number : Int) :
    (dateOf number).IsValid ∧ (dateOf number).dayNumber = number := by
  obtain ⟨year, day, hnumber, hyear, hdate⟩ := exists_marchYear number
  have hfirst : daysBeforeMarchMonth (marchMonth day) ≤ day :=
    le_marchMonth_iff.mp (Nat.le_refl _)
  have hlast := lt_daysBeforeMarchMonth day
  rw [hdate, hnumber]
  rw [hnumber] at hyear
  by_cases hmonth : marchMonth day < 10
  · rw [if_pos hmonth, if_pos hmonth, Int.add_zero]
    exact date_of_spring hmonth hfirst hlast
  · rw [if_neg hmonth, if_neg hmonth]
    exact date_of_winter (Nat.le_of_not_lt hmonth) hfirst hlast hyear

theorem isValid_dateOf (number : Int) : (dateOf number).IsValid :=
  (isValid_dateOf_and_dayNumber number).1

theorem dayNumber_dateOf (number : Int) : (dateOf number).dayNumber = number :=
  (isValid_dateOf_and_dayNumber number).2

end LogLayout.Bundled
