import LogLayout.Converter
import LogLayout.TokenTable

/-!
# Built-in directives

The directives that every pattern can use, with the settings they depend on.

* `c`, `logger` and `C`, `class`: the logger and the class, perhaps only their last segments;
* `d`, `date`: the time, in a format and a zone;
* `f`, `F`, `file`, `l`, `L`, `line`, `M`, `method`: the place in the source;
* `m`, `message`, `p`, `level`, `P`, `pid`, `r`, `relative`, `t`, `thread`, `X`, `properties`:
  the other fields of the record;
* `n`: the end of a line; `Y` and `y`: the start and the end of the level's colour.
-/

namespace LogLayout

open Palette (LevelColors)
open Calendar (Zone)

/-- Makes a converter from the options of a directive, or reports why it cannot. -/
abbrev Factory := List String → Except Report Converter

structure Settings where
  colors : LevelColors := {}
  noColor : Bool := false
  zone : Zone := .system
  deriving DecidableEq, Repr

/-- Turns a problem with the options into its report. -/
def Factory.ofOptions [Libraries] (make : List String → Except OptionError Converter) : Factory :=
  fun options => (make options).mapError OptionError.report

def Factory.constant (converter : Converter) : Factory :=
  fun _ => .ok converter

/-- The number of segments that the first option asks for. -/
def precision (options : List String) : Except OptionError (Option Text.SegmentCount) :=
  match options.head? with
  | none => .ok none
  | some text =>
    match Numeral.readCount (Text.trim text) with
    | .ok count => .ok (some count)
    | .error problem => .error (.malformedPrecision text problem)

/-- Whether the first option asks for lower case; it can ask for nothing else. -/
def levelCase (options : List String) : Except OptionError Bool :=
  match options.head? with
  | none => .ok false
  | some text =>
    if Text.sameName (Text.trim text) "lowercase" then .ok true
    else .error (.unknownLevelOption (Text.trim text))

/-- The built-in factories with their tokens. -/
def directives [Libraries] (settings : Settings) : List (List String × Factory) :=
  [(["c", "logger"], .ofOptions fun options => (precision options).map .logger),
    (["C", "class"], .ofOptions fun options => (precision options).map .className),
    (["f"], .constant .fileName),
    (["F", "file"], .constant .filePath),
    (["l"], .constant .location),
    (["L", "line"], .constant .line),
    (["m", "message"], .constant .message),
    (["M", "method"], .constant .method),
    (["n"], .constant .lineBreak),
    (["p", "level"], .ofOptions fun options => (levelCase options).map .level),
    (["P", "pid"], .constant .pid),
    (["r", "relative"], .constant .elapsed),
    (["t", "thread"], .constant .thread),
    (["X", "properties"], fun options => .ok (.properties options.head?)),
    (["d", "date"], .ofOptions fun options =>
      (DateStyle.ofOptions settings.zone options).map .date),
    (["Y"], .constant (.colorStart settings.colors settings.noColor)),
    (["y"], .constant (.colorEnd settings.noColor))]

def directiveTable [Libraries] (settings : Settings) : TokenTable Factory :=
  TokenTable.empty.bindAll (directives settings)

end LogLayout
