import LogLayout.Converter.OptionError
import LogLayout.Text.Ascii
import LogLayout.Text.Blank

/-!
# Date styles

How a directive writes the time of a record: in a time format and a zone. The format is tried on
one instant when the style is made; where it cannot be written later, nothing is.
-/

namespace LogLayout

open Calendar (Zone)

structure DateStyle where
  format : String
  zone : Zone
  deriving DecidableEq, Repr

namespace DateStyle

/-- The usual format: date and time, the milliseconds behind a comma. -/
def isoFormat : String := "%Y-%m-%d %H:%M:%S,%3f"

/-- The time of day with milliseconds. -/
def timeFormat : String := "%H:%M:%S,%3f"

/-- The date with the name of the month, and the time of day. -/
def longFormat : String := "%d %b %Y %H:%M:%S,%3f"

/-- The format that the first option names or is. -/
def formatOf : Option String → String
  | none => isoFormat
  | some "" => isoFormat
  | some "ISO8601" => isoFormat
  | some "ABSOLUTE" => timeFormat
  | some "DATE" => longFormat
  | some format => format

variable [Libraries]

/-- The zone that the second option names; the usual zone when it is missing or blank. -/
def zoneOf (usual : Zone) : Option String → Except OptionError Zone
  | none => .ok usual
  | some text =>
    let name := Text.trim text
    if name = "" then .ok usual
    else if Text.sameName name "UTC" then .ok .utc
    else
      match Libraries.zone? name with
      | some zone => .ok zone
      | none => .error (.unknownZone name)

def render (style : DateStyle) (t : Instant) : Except String String :=
  Libraries.writeTime style.format style.zone t

/-- The style that the options ask for. The zone is looked up before the format is tried on the
epoch. -/
def ofOptions (usual : Zone) (options : List String) : Except OptionError DateStyle :=
  match zoneOf usual options[1]? with
  | .error e => .error e
  | .ok zone =>
    let style : DateStyle := ⟨formatOf options[0]?, zone⟩
    match style.render .epoch with
    | .error problem => .error (.malformedDateFormat style.format problem)
    | .ok _ => .ok style

/-- What the style writes for an instant; nothing for one without a date, and nothing where the
format cannot be written. -/
def text (style : DateStyle) (t : Instant) : String :=
  if Libraries.isDated t then (style.render t).toOption.getD "" else ""

end DateStyle

end LogLayout
