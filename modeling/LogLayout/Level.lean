import LogLayout.Report
import LogLayout.Text.Ascii
import LogLayout.Text.Padding

/-!
# Severity levels

The six severities of a log record, from the most verbose to the most severe.
-/

namespace LogLayout

inductive Level where
  | trace
  | debug
  | info
  | warn
  | error
  | fatal
  deriving DecidableEq, Repr

namespace Level

/-- Every level, from the most verbose to the most severe. -/
def all : List Level :=
  [.trace, .debug, .info, .warn, .error, .fatal]

def name : Level → String
  | .trace => "TRACE"
  | .debug => "DEBUG"
  | .info => "INFO"
  | .warn => "WARN"
  | .error => "ERROR"
  | .fatal => "FATAL"

/-- The place in the order of severity. -/
def severity : Level → Nat
  | .trace => 0
  | .debug => 1
  | .info => 2
  | .warn => 3
  | .error => 4
  | .fatal => 5

instance : Ord Level where
  compare a b := compare a.severity b.severity

/-- The level of that name, whatever its letter case. -/
def ofName? (s : String) : Option Level :=
  all.find? fun level => Text.sameName s level.name

/-- The name is that of no level. -/
structure NameError where
  name : String
  deriving DecidableEq, Repr

/-- The report names the text in quotes. -/
def NameError.report (e : NameError) : Report :=
  .of ("malformed level: " ++ Text.Quoted.quote e.name)

def parse (s : String) : Except NameError Level :=
  match ofName? s with
  | some level => .ok level
  | none => .error ⟨s⟩

/-- The name set into a column. -/
def setIn (column : Text.Column) (level : Level) : String :=
  column.set level.name

end Level

end LogLayout
