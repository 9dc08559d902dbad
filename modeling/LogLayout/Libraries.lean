import LogLayout.Calendar.Zone
import LogLayout.Instant
import LogLayout.Palette.Color

/-!
# Libraries

Dates and colours are left to other libraries. Everything that is said here of a layout is said
whatever they do; where it matters what they do, that is an assumption with a name of its own.
-/

namespace LogLayout

open Calendar (Zone)
open Palette (Color Terminal)

/-- What layouts take from other libraries. -/
class Libraries where
  /-- The zone of that name. -/
  zone? : String → Option Zone
  /-- What is said of a name that no zone has. -/
  zoneProblem : String → String
  /-- The zone as a text for inspection. -/
  describeZone : Zone → String
  /-- Whether the instant is in the range of dates. -/
  isDated : Instant → Bool
  /-- The instant as the clocks of the zone show it, written in a time format, or what is wrong with
  the format. -/
  writeTime : String → Zone → Instant → Except String String
  /-- The colour of that text. -/
  color? : String → Option Color
  /-- The code that selects the colour as foreground on the terminal. -/
  foreground : Terminal → Color → String

end LogLayout
