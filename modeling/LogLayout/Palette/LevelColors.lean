import LogLayout.Level
import LogLayout.Libraries
import LogLayout.Text.Blank

/-!
# Colours of the levels

One colour for each level, and the layout options that set them by name.
-/

namespace LogLayout.Palette

structure LevelColors where
  fatal : Color := .bright .red
  error : Color := .plain .red
  warn : Color := .plain .yellow
  info : Color := .plain .green
  debug : Color := .plain .blue
  trace : Color := .plain .magenta
  deriving DecidableEq, Repr

/-- The escape sequence that ends every colour. -/
def resetSequence : String := "\x1b[0m"

inductive ColorOptionError where
  | unknownOption (option : String)
  | malformedColor (option value : String)
  deriving DecidableEq, Repr

/-- The report names the option, and the value as it was given. -/
def ColorOptionError.report : ColorOptionError → Report
  | .unknownOption option => .of "unknown layout option" [("option", option)]
  | .malformedColor option value =>
    .of "malformed color" [("option", option), ("value", value)]

namespace LevelColors

def get (colors : LevelColors) : Level → Color
  | .fatal => colors.fatal
  | .error => colors.error
  | .warn => colors.warn
  | .info => colors.info
  | .debug => colors.debug
  | .trace => colors.trace

def set (colors : LevelColors) (level : Level) (color : Color) : LevelColors :=
  match level with
  | .fatal => { colors with fatal := color }
  | .error => { colors with error := color }
  | .warn => { colors with warn := color }
  | .info => { colors with info := color }
  | .debug => { colors with debug := color }
  | .trace => { colors with trace := color }

@[simp] theorem get_set (colors : LevelColors) (level other : Level) (color : Color) :
    (colors.set level color).get other = if other = level then color else colors.get other := by
  cases level <;> cases other <;> rfl

/-- The escape sequence that switches the foreground to the level's colour. -/
def startSequence [Libraries] (colors : LevelColors) (terminal : Terminal) (level : Level) : String :=
  "\x1b[" ++ Libraries.foreground terminal (colors.get level) ++ "m"

/-- The name of the option that sets the level's colour. -/
def optionName (level : Level) : String :=
  Text.lowerCase level.name ++ "color"

/-- The level whose colour the option sets; letter case does not matter. -/
def optionLevel? (option : String) : Option Level :=
  Level.all.find? fun level => Text.sameName option (optionName level)

/-- Sets a colour by option name; blanks around the value are ignored. -/
def setOption [Libraries] (colors : LevelColors) (option value : String) :
    Except ColorOptionError LevelColors :=
  match optionLevel? option with
  | none => .error (.unknownOption option)
  | some level =>
    match Libraries.color? (Text.trim value) with
    | none => .error (.malformedColor option value)
    | some color => .ok (colors.set level color)

def describe (colors : LevelColors) : String :=
  "LevelColor \x7b fatal: " ++ colors.fatal.describe ++ ", error: " ++ colors.error.describe ++
    ", warn: " ++ colors.warn.describe ++ ", info: " ++ colors.info.describe ++
    ", debug: " ++ colors.debug.describe ++ ", trace: " ++ colors.trace.describe ++ " \x7d"

end LevelColors

end LogLayout.Palette
