import LogLayout.Bundled
import LogLayout.Layout

/-!
# Inspection

The parts of a layout as texts for a reader who wants to see how it is put together: each value
with the names of its fields, on one line.
-/

namespace LogLayout

open Fitting (Specifier)

variable {α : Type}

namespace Inspection

/-- A value that may be absent. -/
def optional (describe : α → String) : Option α → String
  | none => "None"
  | some value => "Some(" ++ describe value ++ ")"

def list (texts : List String) : String :=
  "[" ++ ", ".intercalate texts ++ "]"

/-- A name with fields in braces. -/
def fields (name : String) (entries : List (String × String)) : String :=
  name ++ " \x7b " ++ ", ".intercalate (entries.map fun (key, value) => key ++ ": " ++ value) ++
    " \x7d"

end Inspection

open Inspection

/-- A segment count, or none. -/
def describeCount (kept : Option Text.SegmentCount) : String :=
  optional (fun count => toString count.val) kept

/-- A converter, with what it depends on. -/
def Converter.describe [Libraries] : Converter → String
  | .literal text => fields "LiteralConverter" [("text", Text.Quoted.quote text)]
  | .lineBreak => "LineSeparatorConverter"
  | .colorStart colors noColor =>
    fields "ColorStartConverter" [("colors", colors.describe), ("no_color", toString noColor)]
  | .colorEnd noColor => fields "ColorEndConverter" [("no_color", toString noColor)]
  | .message => "MessageConverter"
  | .logger kept => fields "LoggerConverter" [("precision", describeCount kept)]
  | .className kept => fields "ClassConverter" [("precision", describeCount kept)]
  | .level inLowerCase => fields "LevelConverter" [("lowercase", toString inLowerCase)]
  | .pid => "PidConverter"
  | .elapsed => "RelativeTimeConverter"
  | .thread => "ThreadConverter"
  | .properties key => fields "PropertiesConverter" [("key", optional Text.Quoted.quote key)]
  | .filePath => "FileConverter"
  | .fileName => "FilenameConverter"
  | .line => "LineConverter"
  | .method => "MethodConverter"
  | .location => "LocationConverter"
  | .date style =>
    fields "DateConverter"
      [("format", Text.Quoted.quote style.format), ("timezone", Libraries.describeZone style.zone)]
  | .custom converter => converter.label

example :
    (Converter.date ⟨"%H", .system⟩).describe =
      "DateConverter \x7b format: \"%H\", timezone: TimeZone(UTC) \x7d" := by
  cbv

/-- The widths and sides of a specifier. -/
def Fitting.Specifier.describe (s : Specifier) : String :=
  fields "FormatSpecifier"
    [("min_width", optional toString s.minWidth),
      ("left_justify", toString (s.justification == .left)),
      ("max_width", optional toString s.maxWidth),
      ("truncate_from_start", toString s.cutsStart)]

/-- The converters of a chain, then their specifiers. -/
def Chain.describe [Libraries] (chain : Chain) : String :=
  fields "CompiledChain"
    [("converters", list (chain.map fun link => link.converter.describe)),
      ("specifiers", list (chain.specifiers.map Specifier.describe))]

def Settings.describe [Libraries] (settings : Settings) : String :=
  fields "ConverterOptions"
    [("colors", settings.colors.describe), ("no_color", toString settings.noColor),
      ("timezone", Libraries.describeZone settings.zone)]

def TokenTable.describe (table : TokenTable α) : String :=
  fields "ConverterRegistry" [("tokens", list (table.tokens.map Text.Quoted.quote))]

def Layout.describe [Libraries] (layout : Layout) : String :=
  "PatternLayout \x7b pattern: " ++ Text.Quoted.quote layout.pattern ++ ", chain: " ++
    Chain.describe layout.chain ++ ", options: " ++ layout.settings.describe ++ ", .. \x7d"

end LogLayout
