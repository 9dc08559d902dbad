import LogLayout.Bundled.ZoneRules

/-!
# A library for times: local time

An instant seen in a time zone: its calendar day, the time on the clock, and the offset that
holds there.
-/

namespace LogLayout.Bundled

open Calendar (Date)

structure ZonedTime where
  instant : Instant
  zone : ZoneRules
  deriving DecidableEq, Repr

namespace ZonedTime

def offset (t : ZonedTime) : Offset :=
  t.zone.offsetAt t.instant

/-- The seconds on the local clock since 1970-01-01 00:00 local time. -/
def localSeconds (t : ZonedTime) : Int :=
  t.instant.seconds + t.offset.seconds

/-- The number of the local day. -/
def day (t : ZonedTime) : Int :=
  t.localSeconds / secondsPerDay

/-- The seconds since local midnight. -/
def secondOfDay (t : ZonedTime) : Nat :=
  (t.localSeconds % secondsPerDay).toNat

def date (t : ZonedTime) : Date :=
  dateOf t.day

def hour (t : ZonedTime) : Nat :=
  t.secondOfDay / 3600

/-- The hour on a dial of twelve. -/
def dialHour (t : ZonedTime) : Nat :=
  (t.hour + 11) % 12 + 1

def isAfternoon (t : ZonedTime) : Bool :=
  12 ≤ t.hour

def minute (t : ZonedTime) : Nat :=
  t.secondOfDay / 60 % 60

def second (t : ZonedTime) : Nat :=
  t.secondOfDay % 60

def nanosecond (t : ZonedTime) : Nat :=
  t.instant.nanosecond

end ZonedTime

/-- The earliest instant with a date, -9999-01-02 01:59:59 UTC. -/
def firstDated : Instant := .ofSeconds (-377705023201) 0

/-- The latest instant with a date, 9999-12-30 22:00:00.999999999 UTC. -/
def lastDated : Instant := .ofSeconds 253402207200 999999999

/-- Whether the instant can be dated: every zone's local year then has at most four digits. -/
def isDated (t : Instant) : Bool :=
  firstDated.nanos ≤ t.nanos && t.nanos ≤ lastDated.nanos

end LogLayout.Bundled
