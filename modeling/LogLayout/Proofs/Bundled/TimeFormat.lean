import LogLayout.Bundled
import LogLayout.Proofs.Bundled.Date
import LogLayout.Proofs.Calendar.Fields

/-!
# Civil time that is written

The bundled library finds the civil time of an instant in universal time, and writes its numbers in
fields of a fixed width: it is one for which `Libraries.WritesCivilTime` holds.

Results:
1. `ZonedTime.isValid_civil`, `instant_civilTime`: the civil time of an instant.
2. `mapM_text_tokens`: a format of such fields is read and written part by part.
3. `writesCivilTime`: what is assumed of a library for dates holds for the bundled one.
-/

namespace LogLayout.Bundled

open Calendar

/-! ## The civil time of an instant -/

/-- What calendar and clock show. -/
def ZonedTime.civil (t : ZonedTime) : CivilTime where
  date := t.date
  hour := t.hour
  minute := t.minute
  second := t.second
  nanosecond := t.nanosecond

/-- The civil time of an instant in universal time. -/
def civilTime (t : Instant) : CivilTime :=
  ZonedTime.civil ⟨t, .utc⟩

theorem ZonedTime.isValid_civil (t : ZonedTime) : t.civil.IsValid where
  date := isValid_dateOf t.day
  hour_lt := by
    show t.secondOfDay / 3600 < 24
    unfold secondOfDay secondsPerDay
    omega
  minute_lt := Nat.mod_lt _ (by decide)
  second_lt := Nat.mod_lt _ (by decide)
  nanosecond_lt := by
    show (t.instant.nanos % nanosPerSecond).toNat < nanosPerSecond
    unfold nanosPerSecond
    omega

theorem dayNumber_civilTime (t : Instant) :
    (civilTime t).date.dayNumber = t.seconds / secondsPerDay :=
  (dayNumber_dateOf _).trans (congrArg (· / (secondsPerDay : Int)) (Int.add_zero t.seconds))

theorem secondOfDay_civilTime (t : Instant) :
    (((civilTime t).hour * 60 + (civilTime t).minute) * 60 + (civilTime t).second : Int) =
      t.seconds % secondsPerDay := by
  have hsecond : ((ZonedTime.secondOfDay ⟨t, .utc⟩ : Nat) : Int) = t.seconds % secondsPerDay := by
    show ((((t.seconds + 0) % secondsPerDay).toNat : Nat) : Int) = _
    unfold secondsPerDay
    omega
  show ((ZonedTime.secondOfDay _ / 3600 * 60 + ZonedTime.secondOfDay _ / 60 % 60) * 60 +
    ZonedTime.secondOfDay _ % 60 : Int) = _
  omega

theorem nanosecond_civilTime (t : Instant) :
    ((civilTime t).nanosecond : Int) = t.nanos % nanosPerSecond := by
  show (((t.nanos % nanosPerSecond).toNat : Nat) : Int) = _
  unfold nanosPerSecond
  omega

theorem instant_civilTime (t : Instant) : (civilTime t).instant = t := by
  have hday := dayNumber_civilTime t
  have hsecond := secondOfDay_civilTime t
  have hnanosecond := nanosecond_civilTime t
  obtain ⟨nanos⟩ := t
  refine congrArg Instant.mk ?_
  unfold Instant.seconds secondsPerDay nanosPerSecond at *
  dsimp only at *
  omega

/-! ## Formats -/

variable {t : ZonedTime} {part : FormatPart} {parts : List FormatPart}

/-- How a format asks for a field. -/
def directiveOf : TimeField → TimeFormat.Directive
  | .year => ⟨none, none, 0, 'Y'⟩
  | .month => ⟨none, none, 0, 'm'⟩
  | .day => ⟨none, none, 0, 'd'⟩
  | .hour => ⟨none, none, 0, 'H'⟩
  | .minute => ⟨none, none, 0, 'M'⟩
  | .second => ⟨none, none, 0, 'S'⟩
  | .millisecond => ⟨none, some 3, 0, 'f'⟩

def tokenOf : FormatPart → TimeFormat.Token
  | .field f => .directive (directiveOf f)
  | .literal c => .literal c

theorem tokens_source_append (h : part ≠ .literal '%') (rest : List Char) :
    TimeFormat.tokens (part.source ++ rest) = tokenOf part :: TimeFormat.tokens rest := by
  cases part with
  | field f =>
    cases f
    all_goals
      show TimeFormat.tokens ('%' :: _) = _
      rw [TimeFormat.tokens]
      rfl
  | literal c =>
    show TimeFormat.tokens (c :: rest) = _
    rw [TimeFormat.tokens]
    · rfl
    · rintro rfl
      exact h rfl

/-- A number is filled up with zeros, as the directive usually is. -/
theorem number_eq {letter : Char} {width : Nat} {value : Int} (h : 0 ≤ value)
    (hwidth : width ≤ TimeFormat.fillLimit) :
    TimeFormat.Directive.number ⟨none, none, 0, letter⟩ '0' width value =
      zeroPadded width value.toNat := by
  obtain ⟨n, rfl⟩ := Int.eq_ofNat_of_zero_le h
  show TimeFormat.filled '0' width (Nat.toDigits 10 n) = zeroPadded width n
  unfold TimeFormat.filled
  rw [Nat.min_eq_left hwidth]
  rfl

theorem take_digits (width more n : Nat) :
    (digits (width + more) n).take width = digits width (n / 10 ^ more) := by
  induction more generalizing n with
  | zero =>
    rw [Nat.add_zero, Nat.pow_zero, Nat.div_one]
    exact List.take_of_length_le (Nat.le_of_eq (length_digits width n))
  | succ more ih =>
    have hle : width ≤ (digits (width + more) (n / 10)).length := by
      rw [length_digits]
      exact Nat.le_add_right width more
    rw [← Nat.add_assoc, digits, List.take_append_of_le_length hle, ih, Nat.div_div_eq_div_mul,
      Nat.pow_succ']

/-- The first digits of a fraction of a second are those of the fraction rounded down. -/
theorem fractionDigits_eq {nanosecond : Nat} (h : nanosecond < nanosPerSecond) :
    TimeFormat.fractionDigits nanosecond 3 = zeroPadded 3 (nanosecond / 1000000) := by
  have hmillisecond : nanosecond / 1000000 < 10 ^ 3 := by
    unfold nanosPerSecond at h
    omega
  unfold TimeFormat.fractionDigits
  rw [zeroPadded_eq (by decide) h, zeroPadded_eq (by decide) hmillisecond]
  exact take_digits 3 6 nanosecond

theorem text_tokenOf (h : t.civil.HasFourDigitYear) (part : FormatPart) :
    (tokenOf part).text t = .ok (part.chars t.civil) := by
  have hnumber : ∀ {letter : Char} {n : Nat},
      TimeFormat.Directive.number ⟨none, none, 0, letter⟩ '0' 2 n = zeroPadded 2 n :=
    number_eq (Int.natCast_nonneg _) (by decide)
  cases part with
  | field f =>
    cases f with
    | year => exact congrArg Except.ok (number_eq h.1 (by decide))
    | millisecond => exact congrArg Except.ok (fractionDigits_eq t.isValid_civil.nanosecond_lt)
    | _ => exact congrArg Except.ok hnumber
  | literal c => rfl

/-- Such a format is read and written part by part. -/
theorem mapM_text_tokens (h : t.civil.HasFourDigitYear) (hparts : .literal '%' ∉ parts) :
    (TimeFormat.tokens (parts.flatMap FormatPart.source)).mapM (TimeFormat.Token.text t) =
      .ok (parts.map (FormatPart.chars t.civil)) := by
  induction parts with
  | nil =>
    rw [List.flatMap_nil, TimeFormat.tokens]
    rfl
  | cons part rest ih =>
    obtain ⟨hpart, hrest⟩ := not_or.mp (List.mem_cons.not.mp hparts)
    rw [List.flatMap_cons, tokens_source_append (Ne.symm hpart), List.mapM_cons, text_tokenOf h,
      ih hrest]
    rfl

theorem format_sourceText (h : t.civil.HasFourDigitYear) (hparts : .literal '%' ∉ parts) :
    TimeFormat.format (sourceText parts) t = .ok (String.ofList (chars t.civil parts)) := by
  unfold TimeFormat.format sourceText
  rw [String.toList_ofList, mapM_text_tokens h hparts]
  show Except.ok (String.ofList (parts.map _).flatten) = _
  rw [chars, List.flatMap_def]

/-! ## The library -/

theorem writesCivilTime : Libraries.WritesCivilTime civilTime where
  isDated_epoch := by decide
  isValid _ := ZonedTime.isValid_civil _
  instant_eq _ := instant_civilTime _
  writeTime_eq {t _} _ hyear hparts := by
    show (TimeFormat.format _ ⟨t, ZoneRules.utc⟩).mapError _ = _
    rw [format_sourceText hyear hparts]
    rfl

end LogLayout.Bundled
