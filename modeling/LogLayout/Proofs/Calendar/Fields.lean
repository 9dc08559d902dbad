import LogLayout.Libraries
import LogLayout.Proofs.Calendar.DateOrder
import LogLayout.Proofs.Calendar.Digits

/-!
# Formats of fields of a fixed width

A time format made of numbers that are filled up with zeros, and of characters that stand for
themselves. Each number has its place in every text, whatever the time, so two texts are told apart
at the first number in which the times differ.

What is assumed of a library for dates is assumed of such formats only: `Libraries.WritesCivilTime`.

Results:
1. `TimeField.value_lt`: the numbers of a civil time fit their fields.
2. `chars_lt_chars_iff`: texts of one format are in the order of their numbers, from the left.
3. `length_chars`, `ascii_of_mem_chars`: how long the texts are, and of which characters.
-/

namespace LogLayout

namespace Calendar

/-- A number of a date or of the time of day. -/
inductive TimeField where
  | year
  | month
  | day
  | hour
  | minute
  | second
  | millisecond
  deriving DecidableEq, Repr

namespace TimeField

/-- How a format asks for the number. -/
def source : TimeField → List Char
  | .year => ['%', 'Y']
  | .month => ['%', 'm']
  | .day => ['%', 'd']
  | .hour => ['%', 'H']
  | .minute => ['%', 'M']
  | .second => ['%', 'S']
  | .millisecond => ['%', '3', 'f']

def width : TimeField → Nat
  | .year => 4
  | .millisecond => 3
  | _ => 2

/-- The number of a civil time. The milliseconds are rounded down. -/
def value (c : CivilTime) : TimeField → Nat
  | .year => c.date.year.toNat
  | .month => c.date.month
  | .day => c.date.day
  | .hour => c.hour
  | .minute => c.minute
  | .second => c.second
  | .millisecond => c.millisecond

end TimeField

/-- A part of a format: a field, or a character that stands for itself. -/
inductive FormatPart where
  | field (f : TimeField)
  | literal (c : Char)
  deriving DecidableEq, Repr

namespace FormatPart

def source : FormatPart → List Char
  | .field f => f.source
  | .literal c => [c]

def chars (c : CivilTime) : FormatPart → List Char
  | .field f => zeroPadded f.width (f.value c)
  | .literal c => [c]

/-- The number of characters that the part stands for. -/
def width : FormatPart → Nat
  | .field f => f.width
  | .literal _ => 1

end FormatPart

/-- The parts one behind the other, as a format. -/
def sourceText (parts : List FormatPart) : String :=
  String.ofList (parts.flatMap FormatPart.source)

/-- The characters that the parts stand for. -/
def chars (c : CivilTime) (parts : List FormatPart) : List Char :=
  parts.flatMap (FormatPart.chars c)

/-- The year is one from 0 to 9999. -/
def CivilTime.HasFourDigitYear (c : CivilTime) : Prop :=
  0 ≤ c.date.year ∧ c.date.year ≤ 9999

instance (c : CivilTime) : Decidable c.HasFourDigitYear :=
  inferInstanceAs (Decidable (_ ∧ _))

end Calendar

open Calendar

/-- What is assumed of a library for dates: it knows the civil time of every instant in the range of
dates, in universal time and by the Gregorian calendar, and writes its fields. -/
structure Libraries.WritesCivilTime [Libraries] (civil : Instant → CivilTime) : Prop where
  isDated_epoch : Libraries.isDated .epoch = true
  isValid : ∀ {t : Instant}, Libraries.isDated t = true → (civil t).IsValid
  instant_eq : ∀ {t : Instant}, Libraries.isDated t = true → (civil t).instant = t
  writeTime_eq : ∀ {t : Instant} {parts : List FormatPart}, Libraries.isDated t = true →
    (civil t).HasFourDigitYear → .literal '%' ∉ parts →
    Libraries.writeTime (sourceText parts) .utc t = .ok (String.ofList (chars (civil t) parts))

namespace Calendar

variable {a b c : CivilTime} {parts : List FormatPart}

/-! ## Numbers in their fields -/

theorem TimeField.value_lt (hc : c.IsValid) (hyear : c.HasFourDigitYear) (f : TimeField) :
    f.value c < 10 ^ f.width := by
  obtain ⟨hfirst, hlast⟩ := hyear
  have hmonth := hc.date.month_le
  have hday := Nat.le_trans hc.date.day_le (daysInMonth_le _ _)
  have hhour := hc.hour_lt
  have hminute := hc.minute_lt
  have hsecond := hc.second_lt
  have hmillisecond := hc.millisecond_lt
  cases f <;> simp only [value, width] <;> omega

theorem FormatPart.chars_field (hc : c.IsValid) (hyear : c.HasFourDigitYear) (f : TimeField) :
    (FormatPart.field f).chars c = digits f.width (f.value c) :=
  zeroPadded_eq (by cases f <;> decide) (f.value_lt hc hyear)

theorem length_chars (hc : c.IsValid) (hyear : c.HasFourDigitYear) (parts : List FormatPart) :
    (chars c parts).length = (parts.map FormatPart.width).sum := by
  unfold chars
  rw [List.length_flatMap]
  refine congrArg List.sum (List.map_congr_left fun part _ => ?_)
  cases part with
  | field f => rw [FormatPart.chars_field hc hyear, length_digits, FormatPart.width]
  | literal c => rfl

theorem ascii_of_mem_chars (hc : c.IsValid) (hyear : c.HasFourDigitYear)
    (hparts : ∀ s, .literal s ∈ parts → s.toNat < 128) {s : Char} (h : s ∈ chars c parts) :
    s.toNat < 128 := by
  obtain ⟨part, hpart, hs⟩ := List.mem_flatMap.mp h
  cases part with
  | field f =>
    rw [FormatPart.chars_field hc hyear] at hs
    exact ascii_of_mem_digits hs
  | literal s' =>
    obtain rfl := List.mem_singleton.mp hs
    exact hparts s hpart

/-! ## Texts in order -/

/-- The first civil time has the smaller number at the first field in which the two differ. -/
def ValuesPrecede (a b : CivilTime) : List FormatPart → Prop
  | [] => False
  | .literal _ :: rest => ValuesPrecede a b rest
  | .field f :: rest => f.value a < f.value b ∨ f.value a = f.value b ∧ ValuesPrecede a b rest

theorem chars_lt_chars_iff (ha : a.IsValid) (hyearA : a.HasFourDigitYear) (hb : b.IsValid)
    (hyearB : b.HasFourDigitYear) (parts : List FormatPart) :
    chars a parts < chars b parts ↔ ValuesPrecede a b parts := by
  induction parts with
  | nil => exact iff_of_false (List.not_lt_nil []) not_false
  | cons part rest ih =>
    unfold chars at ih ⊢
    rw [List.flatMap_cons, List.flatMap_cons]
    cases part with
    | field f =>
      rw [FormatPart.chars_field ha hyearA, FormatPart.chars_field hb hyearB,
        digits_append_lt_iff (f.value_lt ha hyearA) (f.value_lt hb hyearB), ih]
      rfl
    | literal c => exact cons_lt_cons_self_iff.trans ih

theorem CivilTime.SameMillisecond.chars_eq (h : a.SameMillisecond b) (parts : List FormatPart) :
    chars a parts = chars b parts := by
  obtain ⟨hdate, hhour, hminute, hsecond, hmillisecond⟩ := h
  have hvalue : ∀ f : TimeField, f.value a = f.value b := by
    intro f
    cases f <;> simp only [TimeField.value, hdate, hhour, hminute, hsecond, hmillisecond]
  refine List.flatMap_congr fun part _ => ?_
  cases part with
  | field f => rw [FormatPart.chars, FormatPart.chars, hvalue]
  | literal c => rfl

end Calendar

end LogLayout
