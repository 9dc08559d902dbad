import LogLayout.Bundled.Color
import LogLayout.Bundled.TimeFormat
import LogLayout.Libraries

/-!
# Bundled libraries

The libraries that programs run with when there are no others: a calendar with a few time zones, and
the usual colours.
-/

namespace LogLayout.Bundled

open Calendar (Zone)

/-- The instant in the zone, written in the format. -/
def writeTime (format : String) (zone : Zone) (t : Instant) : Except String String :=
  (TimeFormat.format format ⟨t, .ofZone zone⟩).mapError fun problem =>
    "strftime formatting failed: " ++ problem.message

instance libraries : Libraries where
  zone? := Zone.find?
  zoneProblem name := "failed to find time zone `" ++ name ++ "` in time zone database"
  describeZone := describeZone
  isDated := isDated
  writeTime := writeTime
  color? := Palette.Color.parse?
  foreground := Palette.Color.foreground

end LogLayout.Bundled
