import LogLayout.Calendar.CivilTime
import Mathlib

/-!
# The order of dates

A day is named by year, month and day of the month, and a later date has a later day. For that a
year has to end where the next one begins, and a month as well: the days before each are the days
before the last one and those of the last one.

Results:
1. `daysBeforeYear_succ`, `daysBeforeMonth_succ`: years and months follow one another.
2. `Date.dayNumber_lt`, `Date.eq_of_dayNumber_eq`: dates of the calendar are in the order of their
   days, and every day has one date at most.
3. `CivilTime.milliseconds_lt`, `CivilTime.milliseconds_eq`: so are dates with the time of day, down
   to the millisecond.
-/

namespace LogLayout

/-- The last whole millisecond at or before the instant, since the epoch. -/
def Instant.milliseconds (t : Instant) : Int :=
  t.nanos / 1000000

namespace Calendar

variable {year : Int} {month : Nat}

/-! ## Months -/

theorem daysBeforeMonth_succ (year : Int) (h : 1 ≤ month) :
    daysBeforeMonth year (month + 1) = daysBeforeMonth year month + daysInMonth year month := by
  obtain ⟨before, rfl⟩ := Nat.exists_eq_add_of_le' h
  rfl

theorem daysBeforeMonth_add_le {next : Nat} (hmonth : 1 ≤ month) (h : month < next) :
    daysBeforeMonth year month + daysInMonth year month ≤ daysBeforeMonth year next := by
  induction next, h using Nat.le_induction with
  | base => exact Nat.le_of_eq (daysBeforeMonth_succ year hmonth).symm
  | succ next hnext ih =>
    rw [daysBeforeMonth_succ year (Nat.le_trans (Nat.le_add_left 1 month) hnext)]
    exact Nat.le_trans ih (Nat.le_add_right _ _)

theorem daysInMonth_le (year : Int) (month : Nat) : daysInMonth year month ≤ 31 := by
  unfold daysInMonth
  split
  · split <;> decide
  all_goals decide

/-! ## Years -/

/-- Its months make up the year. -/
theorem daysBeforeYear_succ (year : Int) :
    daysBeforeYear (year + 1) = daysBeforeYear year + daysBeforeMonth year 13 := by
  have hmonths : daysBeforeMonth year 13 = if IsLeapYear year then 366 else 365 := by
    simp only [daysBeforeMonth, daysInMonth]
    split <;> rfl
  rw [hmonths]
  unfold daysBeforeYear
  split
  case isTrue hleap =>
    unfold IsLeapYear at hleap
    omega
  case isFalse hleap =>
    unfold IsLeapYear at hleap
    omega

theorem monotone_daysBeforeYear : Monotone daysBeforeYear :=
  monotone_int_of_le_succ fun year => by
    rw [daysBeforeYear_succ]
    exact Int.le_add_of_nonneg_right (Int.natCast_nonneg _)

/-! ## Dates -/

namespace Date

variable {d e : Date}

/-- The earlier date, by year, month and day in this order. -/
def Precedes (d e : Date) : Prop :=
  d.year < e.year ∨
    d.year = e.year ∧ (d.month < e.month ∨ d.month = e.month ∧ d.day < e.day)

/-- A date is in its month, and so in its year. -/
theorem IsValid.day_lt (h : d.IsValid) :
    daysBeforeMonth d.year d.month + (d.day - 1) < daysBeforeMonth d.year (d.month + 1) := by
  have hfirst := h.one_le_day
  have hlast := h.day_le
  rw [daysBeforeMonth_succ d.year h.one_le_month]
  omega

theorem IsValid.dayNumber_lt_year (h : d.IsValid) :
    d.dayNumber < daysBeforeYear (d.year + 1) - daysBeforeEpoch := by
  have hday := h.day_lt
  have hmonth : daysBeforeMonth d.year (d.month + 1) ≤ daysBeforeMonth d.year 13 := by
    rcases Nat.lt_or_eq_of_le h.month_le with hlt | heq
    · exact Nat.le_trans (Nat.le_add_right _ _)
        (daysBeforeMonth_add_le (Nat.le_add_left 1 d.month) (Nat.add_lt_add_right hlt 1))
    · rw [heq]
  rw [daysBeforeYear_succ]
  unfold dayNumber
  omega

/-- A later date has a later day. Only the earlier one has to be a date of the calendar. -/
theorem dayNumber_lt (hd : d.IsValid) (h : d.Precedes e) :
    d.dayNumber < e.dayNumber := by
  rcases h with hyear | ⟨hyear, hmonth | ⟨hmonth, hday⟩⟩
  · have hnext := monotone_daysBeforeYear (Int.add_one_le_of_lt hyear)
    have hlt := hd.dayNumber_lt_year
    unfold dayNumber at hlt ⊢
    omega
  · have hlt := hd.day_lt
    have hnext : _ ≤ daysBeforeMonth d.year e.month :=
      daysBeforeMonth_add_le hd.one_le_month hmonth
    rw [daysBeforeMonth_succ d.year hd.one_le_month] at hlt
    unfold dayNumber
    rw [← hyear]
    omega
  · have hfirst := hd.one_le_day
    unfold dayNumber
    rw [← hyear, ← hmonth]
    omega

theorem precedes_trichotomy (d e : Date) : d.Precedes e ∨ d = e ∨ e.Precedes d := by
  obtain ⟨year, month, day⟩ := d
  obtain ⟨year', month', day'⟩ := e
  simp only [Precedes, mk.injEq]
  omega

/-- A day has one date only. -/
theorem eq_of_dayNumber_eq (hd : d.IsValid) (he : e.IsValid) (h : d.dayNumber = e.dayNumber) :
    d = e := by
  rcases d.precedes_trichotomy e with hprecedes | heq | hprecedes
  · exact absurd h (Int.ne_of_lt (dayNumber_lt hd hprecedes))
  · exact heq
  · exact absurd h.symm (Int.ne_of_lt (dayNumber_lt he hprecedes))

end Date

/-! ## Dates with the time of day -/

namespace CivilTime

variable {a b : CivilTime}

/-- The whole milliseconds since the second on the clock. -/
def millisecond (c : CivilTime) : Nat :=
  c.nanosecond / 1000000

/-- The earlier date and time of day, from the year down to the millisecond. -/
def Precedes (a b : CivilTime) : Prop :=
  a.date.Precedes b.date ∨ a.date = b.date ∧
    (a.hour < b.hour ∨ a.hour = b.hour ∧
      (a.minute < b.minute ∨ a.minute = b.minute ∧
        (a.second < b.second ∨ a.second = b.second ∧ a.millisecond < b.millisecond)))

/-- The same date and time of day, down to the millisecond. -/
def SameMillisecond (a b : CivilTime) : Prop :=
  a.date = b.date ∧ a.hour = b.hour ∧ a.minute = b.minute ∧ a.second = b.second ∧
    a.millisecond = b.millisecond

theorem precedes_trichotomy (a b : CivilTime) :
    a.Precedes b ∨ a.SameMillisecond b ∨ b.Precedes a := by
  unfold Precedes SameMillisecond
  rcases a.date.precedes_trichotomy b.date with hdate | hdate | hdate
  · exact .inl (.inl hdate)
  · rw [hdate]
    simp only [true_and]
    omega
  · exact .inr (.inr (.inl hdate))

/-- The nanoseconds below the millisecond are rounded off, before the epoch as well as after it. -/
theorem milliseconds_eq (c : CivilTime) :
    c.instant.milliseconds =
      (((c.date.dayNumber * 24 + c.hour) * 60 + c.minute) * 60 + c.second) * 1000 +
        c.millisecond := by
  unfold Instant.milliseconds instant Instant.ofSeconds millisecond nanosPerSecond
  dsimp only
  omega

theorem IsValid.millisecond_lt (h : a.IsValid) : a.millisecond < 1000 := by
  unfold millisecond
  rw [Nat.div_lt_iff_lt_mul (by decide)]
  exact h.nanosecond_lt

/-- A later date and time of day is a later millisecond. -/
theorem milliseconds_lt (ha : a.IsValid) (h : a.Precedes b) :
    a.instant.milliseconds < b.instant.milliseconds := by
  have hhour := ha.hour_lt
  have hminute := ha.minute_lt
  have hsecond := ha.second_lt
  have hmillisecond := ha.millisecond_lt
  rw [milliseconds_eq, milliseconds_eq]
  rcases h with hdate | ⟨hdate, hclock⟩
  · have hday := Date.dayNumber_lt ha.date hdate
    omega
  · rw [hdate]
    omega

theorem SameMillisecond.milliseconds_eq (h : a.SameMillisecond b) :
    a.instant.milliseconds = b.instant.milliseconds := by
  obtain ⟨hdate, hhour, hminute, hsecond, hmillisecond⟩ := h
  rw [CivilTime.milliseconds_eq, CivilTime.milliseconds_eq, hdate, hhour, hminute, hsecond,
    hmillisecond]

theorem IsValid.dayNumber_eq (h : a.IsValid) :
    a.date.dayNumber = a.instant.milliseconds / 86400000 := by
  have hhour := h.hour_lt
  have hminute := h.minute_lt
  have hsecond := h.second_lt
  have hmillisecond := h.millisecond_lt
  rw [milliseconds_eq]
  omega

end CivilTime

end Calendar

end LogLayout
