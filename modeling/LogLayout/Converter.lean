import LogLayout.Converter.DateStyle
import LogLayout.Palette.LevelColors
import LogLayout.Record
import LogLayout.Text.Segments

/-!
# Converters

A converter writes one contribution of a record behind the text that is already there. Those that
users do not bring along only add text, and what they add depends on the record and the terminal
alone (`write_eq_append`), with dates and colours written as the libraries do it; a missing field of
the record leaves a placeholder or nothing. Users add converters of their own.
-/

namespace LogLayout

open Palette (LevelColors Terminal)
open Text (SegmentCount)

/-- A converter from outside the library: what it does to the text so far, and the label by which
it is shown. -/
structure CustomConverter where
  label : String
  write : Record → String → String

inductive Converter where
  | literal (text : String)
  | lineBreak
  | colorStart (colors : LevelColors) (noColor : Bool)
  | colorEnd (noColor : Bool)
  | message
  | logger (kept : Option SegmentCount)
  | className (kept : Option SegmentCount)
  | level (inLowerCase : Bool)
  | pid
  | elapsed
  | thread
  | properties (key : Option String)
  | filePath
  | fileName
  | line
  | method
  | location
  | date (style : DateStyle)
  | custom (converter : CustomConverter)

def lineSeparator : String := "\n"

/-- The name, or its last segments. -/
def shortName (kept : Option SegmentCount) (name : String) : String :=
  match kept with
  | none => name
  | some count => Text.lastSegments count name

/-- All properties, in order, in braces. -/
def propertiesText (properties : List (String × String)) : String :=
  "\x7b" ++ ", ".intercalate (properties.map fun (key, value) => key ++ "=" ++ value) ++ "\x7d"

/-- Writes properties one behind the other, with a comma between two of them. -/
def writeProperties (buffer : String) : List (String × String) → String
  | [] => buffer
  | [(key, value)] => buffer ++ key ++ "=" ++ value
  | (key, value) :: more => writeProperties (buffer ++ key ++ "=" ++ value ++ ", ") more

/-- Writes a text character by character, `A`–`Z` in lower case. -/
def writeLowerCase (buffer : String) (s : String) : String :=
  s.toList.foldl (fun buffer c => buffer.push c.toLower) buffer

/-- Class, method, file name and line, each unknown one as a question mark. -/
def locationText (r : Record) : String :=
  r.className.getD "?" ++ "." ++ r.method.getD "?" ++ "(" ++ r.fileName.getD "?" ++ ":" ++
    (r.line.map toString).getD "?" ++ ")"

namespace Converter

/-- The text that the converter writes when nothing is there yet. -/
def text [Libraries] (terminal : Terminal) (r : Record) : Converter → String
  | .literal text => text
  | .lineBreak => lineSeparator
  | .colorStart colors noColor =>
    if !noColor && terminal.showsColor then colors.startSequence terminal r.level else ""
  | .colorEnd noColor => if !noColor && terminal.showsColor then Palette.resetSequence else ""
  | .message => r.message
  | .logger kept => shortName kept (r.logger.getD "")
  | .className kept => shortName kept (r.className.getD "")
  | .level inLowerCase => if inLowerCase then Text.lowerCase r.level.name else r.level.name
  | .pid => (r.pid.map toString).getD ""
  | .elapsed => toString r.elapsed.milliseconds
  | .thread => r.thread.getD ""
  | .properties none => propertiesText r.properties
  | .properties (some key) => (r.property key).getD ""
  | .filePath => r.file.getD ""
  | .fileName => r.fileName.getD ""
  | .line => (r.line.map toString).getD ""
  | .method => r.method.getD ""
  | .location => locationText r
  | .date style => style.text r.time
  | .custom converter => converter.write r ""

/-- What the converter makes of the text so far. -/
def write [Libraries] (terminal : Terminal) (r : Record) (buffer : String) : Converter → String
  | .custom converter => converter.write r buffer
  | .level true => writeLowerCase buffer r.level.name
  | .properties none => writeProperties (buffer ++ "\x7b") r.properties ++ "\x7d"
  | converter => buffer ++ converter.text terminal r

/-- The converter comes from the library. -/
def IsBuiltIn : Converter → Prop
  | .custom _ => False
  | _ => True

end Converter

/-! ## What is written -/

theorem writeProperties_eq (buffer : String) (properties : List (String × String)) :
    writeProperties buffer properties =
      buffer ++ ", ".intercalate (properties.map fun (key, value) => key ++ "=" ++ value) := by
  fun_induction writeProperties buffer properties with
  | case1 buffer => rw [List.map_nil, String.intercalate_nil, String.append_empty]
  | case2 buffer key value =>
    simp only [List.map_singleton, String.intercalate_singleton, String.append_assoc]
  | case3 buffer key value more hmore ih =>
    obtain ⟨next, more, rfl⟩ := List.exists_cons_of_ne_nil fun hnil => hmore hnil
    rw [ih]
    simp only [List.map_cons, String.intercalate_cons_cons, String.append_assoc]

theorem writeLowerCase_eq (buffer s : String) :
    writeLowerCase buffer s = buffer ++ Text.lowerCase s := by
  unfold writeLowerCase Text.lowerCase
  induction s.toList generalizing buffer with
  | nil => rw [List.foldl_nil, List.map_nil, String.ofList_nil, String.append_empty]
  | cons c cs ih =>
    rw [List.foldl_cons, ih, List.map_cons, String.ofList_cons, String.push_eq_append,
      String.append_assoc]

/-- A converter of the library adds its text, whatever is there already. -/
theorem Converter.write_eq_append [Libraries] {converter : Converter} (h : converter.IsBuiltIn)
    (terminal : Terminal) (r : Record) (buffer : String) :
    converter.write terminal r buffer = buffer ++ converter.text terminal r := by
  cases converter with
  | custom converter => exact h.elim
  | level inLowerCase =>
    cases inLowerCase with
    | false => rfl
    | true => exact writeLowerCase_eq buffer r.level.name
  | properties key =>
    cases key with
    | none =>
      show writeProperties (buffer ++ "\x7b") r.properties ++ "\x7d" =
        buffer ++ propertiesText r.properties
      rw [writeProperties_eq]
      simp only [propertiesText, String.append_assoc]
    | some key => rfl
  | _ => rfl

end LogLayout
