/-!
# Time zones

A zone is told apart from others by its name. What its clocks show is a matter of the libraries.
-/

namespace LogLayout.Calendar

inductive Zone where
  | utc
  /-- The zone of the machine. -/
  | system
  | named (name : String)
  deriving DecidableEq, Repr

end LogLayout.Calendar
