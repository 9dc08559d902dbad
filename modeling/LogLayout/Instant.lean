/-!
# Instants and spans of time

An instant is a number of nanoseconds since 1970-01-01 00:00 UTC, and may lie before it. A span is
a number of nanoseconds.
-/

namespace LogLayout

def nanosPerSecond : Nat := 1000000000

/-- A point in time, by its nanoseconds since the epoch. -/
structure Instant where
  nanos : Int
  deriving DecidableEq, Repr

namespace Instant

/-- The start of 1970 in UTC. -/
def epoch : Instant := ⟨0⟩

/-- So many seconds and nanoseconds after the epoch. -/
def ofSeconds (seconds : Int) (nanos : Nat) : Instant :=
  ⟨seconds * nanosPerSecond + nanos⟩

/-- The last whole second at or before the instant, since the epoch. -/
def seconds (t : Instant) : Int :=
  t.nanos / nanosPerSecond

/-- The nanoseconds since that second. -/
def nanosecond (t : Instant) : Nat :=
  (t.nanos % nanosPerSecond).toNat

def isBeforeEpoch (t : Instant) : Bool :=
  t.nanos < 0

/-- The nanoseconds between the instant and the epoch. -/
def distance (t : Instant) : Nat :=
  t.nanos.natAbs

end Instant

/-- A length of time, by its nanoseconds. -/
structure Span where
  nanos : Nat
  deriving DecidableEq, Repr

namespace Span

def ofSeconds (seconds nanos : Nat) : Span :=
  ⟨seconds * nanosPerSecond + nanos⟩

def milliseconds (s : Span) : Nat :=
  s.nanos / 1000000

end Span

end LogLayout
