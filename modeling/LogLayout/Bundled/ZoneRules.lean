import LogLayout.Bundled.Date
import LogLayout.Calendar.Zone
import LogLayout.Instant
import LogLayout.Text.Ascii
import LogLayout.Text.Quoted

/-!
# A library for times: zones

A zone keeps clocks at a standard distance from universal time, and perhaps at another one in
summer. Clocks are changed on Sundays, by rules that hold from some year on. The library has the
rules of a few zones, and takes the zone of the machine to be universal time.
-/

namespace LogLayout.Bundled

open Calendar (Date Zone)

/-- How far clocks are ahead of universal time, and the abbreviation for it. -/
structure Offset where
  seconds : Int
  abbreviation : String
  deriving DecidableEq, Repr

/-- A Sunday of a month. -/
inductive Sunday where
  | first
  | second
  | last
  deriving DecidableEq, Repr

/-- When clocks are changed every year: on a Sunday of a month, so many seconds of universal time
after its midnight (before it, when negative). -/
structure Change where
  month : Nat
  sunday : Sunday
  seconds : Int
  deriving DecidableEq, Repr

/-- Summer time: its offset, when it begins and ends, and the first year of the rule. -/
structure Summer where
  offset : Offset
  begins : Change
  ends : Change
  firstYear : Int
  deriving DecidableEq, Repr

structure ZoneRules where
  name : String
  standard : Offset
  summer : Option Summer := none
  deriving DecidableEq, Repr

def secondsPerDay : Nat := 86400

namespace Sunday

/-- The day number of the Sunday in a month of a year. -/
def dayNumber (sunday : Sunday) (year : Int) (month : Nat) : Int :=
  let opening := Date.dayNumber ⟨year, month, 1⟩
  let first := opening + (7 - weekday opening) % 7
  match sunday with
  | .first => first
  | .second => first + 7
  | .last =>
    let closing := Date.dayNumber ⟨year, month + 1, 1⟩ - 1
    closing - weekday closing

end Sunday

/-- The second, since the epoch, of the change in a year. -/
def Change.second (change : Change) (year : Int) : Int :=
  change.sunday.dayNumber year change.month * secondsPerDay + change.seconds

/-- Whether summer time holds at a second since the epoch. In the southern half of the world it
begins late in the year and ends early in it. -/
def Summer.holds (summer : Summer) (second : Int) : Bool :=
  let year := (dateOf (second / secondsPerDay)).year
  let begins := summer.begins.second year
  let ends := summer.ends.second year
  decide (summer.firstYear ≤ year) &&
    (if begins < ends then begins ≤ second && second < ends
    else !(ends ≤ second && second < begins))

namespace ZoneRules

/-- The offset that holds in the zone at an instant. -/
def offsetAt (rules : ZoneRules) (t : Instant) : Offset :=
  match rules.summer with
  | none => rules.standard
  | some summer => if summer.holds t.seconds then summer.offset else rules.standard

def utc : ZoneRules := { name := "UTC", standard := ⟨0, "UTC"⟩ }

/-- The rules of the zones known by name, besides universal time. -/
def database : List ZoneRules :=
  [{ name := "Asia/Kolkata", standard := ⟨19800, "IST"⟩ },
    { name := "Asia/Kathmandu", standard := ⟨20700, "+0545"⟩ },
    { name := "Asia/Tokyo", standard := ⟨32400, "JST"⟩ },
    { name := "Etc/GMT+5", standard := ⟨-18000, "-05"⟩ },
    { name := "America/New_York"
      standard := ⟨-18000, "EST"⟩
      summer := some
        { offset := ⟨-14400, "EDT"⟩
          begins := ⟨3, .second, 7 * 3600⟩
          ends := ⟨11, .first, 6 * 3600⟩
          firstYear := 2007 } },
    { name := "Europe/Berlin"
      standard := ⟨3600, "CET"⟩
      summer := some
        { offset := ⟨7200, "CEST"⟩
          begins := ⟨3, .last, 3600⟩
          ends := ⟨10, .last, 3600⟩
          firstYear := 1996 } },
    { name := "Australia/Lord_Howe"
      standard := ⟨37800, "+1030"⟩
      summer := some
        { offset := ⟨39600, "+11"⟩
          begins := ⟨10, .first, 7200 - 37800⟩
          ends := ⟨4, .first, 7200 - 39600⟩
          firstYear := 2008 } }]

/-- The rules of a zone; a zone that is not known keeps universal time. -/
def ofZone : Zone → ZoneRules
  | .utc | .system => utc
  | .named name => (database.find? fun rules => rules.name == name).getD utc

end ZoneRules

def describeZone : Zone → String
  | .utc | .system => "TimeZone(UTC)"
  | .named name => "TimeZone(TZif(" ++ Text.Quoted.quote name ++ "))"

end LogLayout.Bundled

namespace LogLayout.Calendar

open Bundled (ZoneRules)

/-- The zone of that name, whatever its letter case. -/
def Zone.find? (name : String) : Option Zone :=
  if Text.sameName name ZoneRules.utc.name then some .utc
  else
    (ZoneRules.database.find? fun rules => Text.sameName name rules.name).map fun rules =>
      .named rules.name

end LogLayout.Calendar
