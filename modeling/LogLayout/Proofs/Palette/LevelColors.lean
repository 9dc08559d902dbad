import LogLayout.Palette.LevelColors

/-!
# Options for colours

What an option asks for, and the colours after several of them.

Results:
1. `setOption_eq`: an option asks for the colour of a level, whatever the colours are.
2. `exists_readOption_eq_error_iff`: the options that ask for nothing, by name and by value.
3. `set_comm`, `set_set`: the colours of two levels may be set in any order, and of two for one
   level the later one stays.
-/

namespace LogLayout

theorem Text.forall_sameName_eq_false_iff {s : String} {names : List String} :
    (∀ name ∈ names, sameName s name = false) ↔ lowerCase s ∉ names.map lowerCase := by
  unfold sameName
  simp only [beq_eq_false_iff_ne, List.mem_map, not_exists, not_and, ne_comm]

namespace Palette.LevelColors

variable {option value : String} {level other : Level}

/-- The names of the options, as they are written. -/
def optionNames : List String :=
  ["FatalColor", "ErrorColor", "WarnColor", "InfoColor", "DebugColor", "TraceColor"]

theorem optionLevel?_eq_none_iff :
    optionLevel? option = none ↔ ∀ name ∈ optionNames, Text.sameName option name = false := by
  -- both lists hold the same six names, letter case aside
  have hnames : optionNames.map Text.lowerCase =
      (Level.all.reverse.map optionName).map Text.lowerCase := by decide
  rw [Text.forall_sameName_eq_false_iff, hnames, ← Text.forall_sameName_eq_false_iff,
    List.forall_mem_map]
  unfold optionLevel?
  simp only [List.find?_eq_none, List.mem_reverse, Bool.not_eq_true]

section

variable [Libraries]

/-- The level and the colour that an option asks for. -/
def readOption (option value : String) : Except ColorOptionError (Level × Color) :=
  match optionLevel? option with
  | none => .error (.unknownOption option)
  | some level =>
    match Libraries.color? (Text.trim value) with
    | none => .error (.malformedColor option value)
    | some color => .ok (level, color)

theorem setOption_eq (colors : LevelColors) (option value : String) :
    colors.setOption option value =
      (readOption option value).map fun (level, color) => colors.set level color := by
  unfold setOption readOption
  cases optionLevel? option with
  | none => rfl
  | some level => cases Libraries.color? (Text.trim value) <;> rfl

theorem readOption_eq_ok_iff {color : Color} :
    readOption option value = .ok (level, color) ↔
      optionLevel? option = some level ∧ Libraries.color? (Text.trim value) = some color := by
  unfold readOption
  cases optionLevel? option with
  | none => simp
  | some named => cases Libraries.color? (Text.trim value) <;> simp

/-- An option is refused for its name or for its value. -/
theorem exists_readOption_eq_error_iff :
    (∃ cause, readOption option value = .error cause) ↔
      (∀ name ∈ optionNames, Text.sameName option name = false) ∨
        Libraries.color? (Text.trim value) = none := by
  rw [← optionLevel?_eq_none_iff]
  unfold readOption
  cases optionLevel? option with
  | none => simp
  | some named => cases Libraries.color? (Text.trim value) <;> simp

end

/-! ## Colours that are set one after the other -/

theorem ext_get {colors others : LevelColors} (h : ∀ level, colors.get level = others.get level) :
    colors = others := by
  obtain ⟨fatal, error, warn, info, debug, trace⟩ := colors
  obtain rfl : fatal = _ := h .fatal
  obtain rfl : error = _ := h .error
  obtain rfl : warn = _ := h .warn
  obtain rfl : info = _ := h .info
  obtain rfl : debug = _ := h .debug
  obtain rfl : trace = _ := h .trace
  rfl

theorem set_comm (colors : LevelColors) (h : level ≠ other) (color next : Color) :
    (colors.set level color).set other next = (colors.set other next).set level color := by
  refine ext_get fun asked => ?_
  simp only [get_set]
  by_cases hasked : asked = level
  · rw [if_pos hasked, if_pos hasked, if_neg (hasked ▸ h)]
  · rw [if_neg hasked, if_neg hasked]

theorem set_set (colors : LevelColors) (level : Level) (color next : Color) :
    (colors.set level color).set level next = colors.set level next := by
  refine ext_get fun asked => ?_
  simp only [get_set]
  split <;> rfl

end Palette.LevelColors

end LogLayout
