import LogLayout.Converter
import LogLayout.Proofs.Bundled.TimeFormat
import LogLayout.Proofs.Calendar.Fields
import LogLayout.Proofs.Converter.DateStyle
import Mathlib.Data.String.Basic

/-!
# Usual dates and the order of time

The usual format writes year, month, day, hour, minute, second and milliseconds, every number with
as many digits as it can have. So the texts of two records are in the order of their times, as long
as no two times are of the same millisecond; instants before the epoch are rounded down as well.

Results:
1. `sourceText_isoParts`: the usual format, part by part.
2. `compare_isoText`: texts of civil times compare as their milliseconds do.
3. `usual_dates_sort_like_time`: so do the texts that the usual date style adds for records.
-/

namespace LogLayout

open Calendar

namespace DateStyle

/-- The parts of the usual format. -/
def isoParts : List FormatPart :=
  [.field .year, .literal '-', .field .month, .literal '-', .field .day, .literal ' ',
    .field .hour, .literal ':', .field .minute, .literal ':', .field .second, .literal ',',
    .field .millisecond]

theorem sourceText_isoParts : sourceText isoParts = isoFormat := by decide

/-! ## Civil times -/

section CivilTimes

variable {a b c : CivilTime}

/-- Date and time of day in the usual format. -/
def isoText (c : CivilTime) : String :=
  String.ofList (chars c isoParts)

theorem length_isoText (hc : c.IsValid) (hyear : c.HasFourDigitYear) :
    (isoText c).length = 23 := by
  unfold isoText
  rw [String.length_ofList, length_chars hc hyear]
  rfl

theorem ascii_of_mem_isoText (hc : c.IsValid) (hyear : c.HasFourDigitYear) {s : Char}
    (h : s ∈ (isoText c).toList) : s.toNat < 128 := by
  unfold isoText at h
  rw [String.toList_ofList] at h
  refine ascii_of_mem_chars hc hyear (fun s hs => ?_) h
  simp only [isoParts, List.mem_cons, FormatPart.literal.injEq, reduceCtorEq, List.not_mem_nil,
    or_false, false_or] at hs
  rcases hs with rfl | rfl | rfl | rfl | rfl | rfl <;> decide

/-- The numbers stand in the order in which times are compared. -/
theorem valuesPrecede_isoParts (ha : a.HasFourDigitYear) (hb : b.HasFourDigitYear)
    (h : a.Precedes b) : ValuesPrecede a b isoParts := by
  obtain ⟨hyearA, -⟩ := ha
  obtain ⟨hyearB, -⟩ := hb
  simp only [isoParts, ValuesPrecede, TimeField.value, and_false, or_false]
  rcases h with (hyear | ⟨hyear, hmonth | ⟨hmonth, hday⟩⟩) | ⟨hdate, hclock⟩
  · exact .inl (by omega)
  · exact .inr ⟨congrArg Int.toNat hyear, .inl hmonth⟩
  · exact .inr ⟨congrArg Int.toNat hyear, .inr ⟨hmonth, .inl hday⟩⟩
  · rw [hdate]
    exact .inr ⟨rfl, .inr ⟨rfl, .inr ⟨rfl, hclock⟩⟩⟩

theorem isoText_lt_isoText (ha : a.IsValid) (hyearA : a.HasFourDigitYear) (hb : b.IsValid)
    (hyearB : b.HasFourDigitYear) (h : a.Precedes b) : isoText a < isoText b := by
  unfold isoText
  rw [String.lt_iff_toList_lt, String.toList_ofList, String.toList_ofList,
    chars_lt_chars_iff ha hyearA hb hyearB]
  exact valuesPrecede_isoParts hyearA hyearB h

theorem compare_isoText (ha : a.IsValid) (hyearA : a.HasFourDigitYear) (hb : b.IsValid)
    (hyearB : b.HasFourDigitYear) :
    compare (isoText a) (isoText b) =
      compare a.instant.milliseconds b.instant.milliseconds := by
  rcases a.precedes_trichotomy b with h | h | h
  · rw [compare_lt_iff_lt.mpr (CivilTime.milliseconds_lt ha h), compare_lt_iff_lt]
    exact isoText_lt_isoText ha hyearA hb hyearB h
  · rw [h.milliseconds_eq, compare_eq_iff_eq.mpr rfl, compare_eq_iff_eq]
    exact congrArg String.ofList (h.chars_eq isoParts)
  · rw [compare_gt_iff_gt.mpr (CivilTime.milliseconds_lt hb h), compare_gt_iff_gt]
    exact isoText_lt_isoText hb hyearB ha hyearA h

end CivilTimes

/-! ## Records -/

theorem formatOf_eq_isoFormat {name : Option String}
    (h : name ∈ [none, some "", some "ISO8601"]) : formatOf name = isoFormat := by
  simp only [List.mem_cons, List.not_mem_nil, or_false] at h
  rcases h with rfl | rfl | rfl
  · rfl
  · rfl
  · rfl

variable [Libraries] {civil : Instant → CivilTime} {t : Instant}

theorem render_iso (hcivil : Libraries.WritesCivilTime civil)
    (hdated : Libraries.isDated t = true) (hyear : (civil t).HasFourDigitYear) :
    render ⟨isoFormat, .utc⟩ t = .ok (isoText (civil t)) := by
  unfold render
  rw [← sourceText_isoParts]
  exact hcivil.writeTime_eq hdated hyear (by decide)

/-- The date of the epoch is the first day of 1970, as every day has one date only. -/
theorem hasFourDigitYear_epoch (hcivil : Libraries.WritesCivilTime civil) :
    (civil .epoch).HasFourDigitYear := by
  have hvalid := hcivil.isValid hcivil.isDated_epoch
  have hnumber := hvalid.dayNumber_eq
  rw [hcivil.instant_eq hcivil.isDated_epoch] at hnumber
  have hfirst : Date.IsValid ⟨1970, 1, 1⟩ := by constructor <;> decide
  have hdate : (civil .epoch).date = ⟨1970, 1, 1⟩ :=
    Date.eq_of_dayNumber_eq hvalid.date hfirst hnumber
  unfold CivilTime.HasFourDigitYear
  rw [hdate]
  decide

theorem ofOptions_eq_iso (hcivil : Libraries.WritesCivilTime civil) {usual : Zone}
    {options : List String} (hformat : options[0]? ∈ [none, some "", some "ISO8601"])
    (hzone : zoneOf usual options[1]? = .ok .utc) :
    ofOptions usual options = .ok ⟨isoFormat, .utc⟩ :=
  ofOptions_eq_ok_iff.mpr ⟨(formatOf_eq_isoFormat hformat).symm, hzone, _,
    render_iso hcivil hcivil.isDated_epoch (hasFourDigitYear_epoch hcivil)⟩

theorem text_eq_isoText (hcivil : Libraries.WritesCivilTime civil)
    (hdated : Libraries.isDated t = true) (hyear : (civil t).HasFourDigitYear) :
    text ⟨isoFormat, .utc⟩ t = isoText (civil t) :=
  text_eq_of_render hdated (render_iso hcivil hdated hyear)

end DateStyle

open DateStyle

/-- The usual dates of two records are in the order of their times, for every library that writes
civil time. When no format is named, or the usual one by its name, and the zone is universal time, a
style is made, and for every record whose time can be dated and is in a year from 0 to 9999 its
converter adds a text of 23 ASCII characters. Two such texts compare, from the left and character by
character, exactly as the times do after both are rounded down to the millisecond; they are equal if
and only if both times are in the same millisecond. -/
theorem usual_dates_sort_like_time [Libraries] {civil : Instant → CivilTime}
    (hcivil : Libraries.WritesCivilTime civil) {usual : Zone} {options : List String}
    (hformat : options[0]? ∈ [none, some "", some "ISO8601"])
    (hzone : zoneOf usual options[1]? = .ok .utc) :
    ∃ style, DateStyle.ofOptions usual options = .ok style ∧
      (∀ r : Record, Libraries.isDated r.time = true → (civil r.time).HasFourDigitYear →
        (∀ terminal buffer,
          (Converter.date style).write terminal r buffer = buffer ++ style.text r.time) ∧
        (style.text r.time).length = 23 ∧ ∀ c ∈ (style.text r.time).toList, c.toNat < 128) ∧
      ∀ r s : Record, Libraries.isDated r.time = true → (civil r.time).HasFourDigitYear →
        Libraries.isDated s.time = true → (civil s.time).HasFourDigitYear →
        compare (style.text r.time) (style.text s.time) =
            compare r.time.milliseconds s.time.milliseconds ∧
          (style.text r.time = style.text s.time ↔
            r.time.milliseconds = s.time.milliseconds) := by
  refine ⟨_, ofOptions_eq_iso hcivil hformat hzone, fun r hdated hyear => ?_,
    fun r s hdated hyear hdated' hyear' => ?_⟩
  · have hvalid := hcivil.isValid hdated
    refine ⟨fun terminal buffer => rfl, ?_⟩
    rw [text_eq_isoText hcivil hdated hyear]
    exact ⟨length_isoText hvalid hyear, fun c hc => ascii_of_mem_isoText hvalid hyear hc⟩
  · have hcompare : compare (text ⟨isoFormat, .utc⟩ r.time) (text ⟨isoFormat, .utc⟩ s.time) =
        compare r.time.milliseconds s.time.milliseconds := by
      rw [text_eq_isoText hcivil hdated hyear, text_eq_isoText hcivil hdated' hyear',
        compare_isoText (hcivil.isValid hdated) hyear (hcivil.isValid hdated') hyear',
        hcivil.instant_eq hdated, hcivil.instant_eq hdated']
    exact ⟨hcompare, by rw [← compare_eq_iff_eq, hcompare, compare_eq_iff_eq]⟩

/-- A nanosecond before the epoch is in the last millisecond of 1969, with the whole of that
millisecond, and its text stands before that of the epoch. -/
theorem dates_around_epoch_sorted :
    ∃ style, DateStyle.ofOptions .utc ["ISO8601"] = .ok style ∧
      style.text ⟨-1⟩ = style.text ⟨-1000000⟩ ∧
      compare (style.text ⟨-1⟩) (style.text ⟨0⟩) = .lt ∧
      ∀ terminal, (Converter.date style).write terminal { time := ⟨-1⟩ } "at " =
        "at 1969-12-31 23:59:59,999" := by
  obtain ⟨style, hstyle, htext, hcompare⟩ :=
    @usual_dates_sort_like_time _ _ Bundled.writesCivilTime .utc ["ISO8601"] (by decide) rfl
  have hdated : ∀ t ∈ [(⟨-1⟩ : Instant), ⟨-1000000⟩, ⟨0⟩], Libraries.isDated t = true ∧
      (Bundled.civilTime t).HasFourDigitYear := by decide
  obtain ⟨hlast, hlastYear⟩ := hdated ⟨-1⟩ (by decide)
  obtain ⟨hfirst, hfirstYear⟩ := hdated ⟨-1000000⟩ (by decide)
  obtain ⟨hepoch, hepochYear⟩ := hdated ⟨0⟩ (by decide)
  have hsame := (hcompare { time := ⟨-1⟩ } { time := ⟨-1000000⟩ } hlast hlastYear hfirst
    hfirstYear).2.mpr (by decide)
  have hless := (hcompare { time := ⟨-1⟩ } { time := ⟨0⟩ } hlast hlastYear hepoch hepochYear).1
  refine ⟨style, hstyle, hsame, hless.trans (by decide), fun terminal => ?_⟩
  obtain rfl : ⟨isoFormat, .utc⟩ = style :=
    Except.ok.inj ((ofOptions_eq_iso Bundled.writesCivilTime (by decide) rfl).symm.trans hstyle)
  rw [(htext { time := ⟨-1⟩ } hlast hlastYear).1,
    text_eq_isoText Bundled.writesCivilTime hlast hlastYear]
  decide +kernel

end LogLayout
