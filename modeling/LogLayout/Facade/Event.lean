import LogLayout.Numeral.Shortest
import LogLayout.Record

/-!
# Events of a logging facade

A general logging facade passes on events with fewer fields than a record: a level without `fatal`,
a target, the module, the place in the source, the message and key-value pairs. A record takes over
what there is, with the thread and the process it was made in.
-/

namespace LogLayout.Facade

inductive EventLevel where
  | error
  | warn
  | info
  | debug
  | trace
  deriving DecidableEq, Repr

namespace EventLevel

def toLevel : EventLevel → Level
  | .error => .error
  | .warn => .warn
  | .info => .info
  | .debug => .debug
  | .trace => .trace

/-- The level of that name, whatever its letter case. -/
def ofName? (name : String) : Option EventLevel :=
  [error, warn, info, debug, trace].find? fun level => Text.sameName name level.toLevel.name

end EventLevel

inductive Value where
  | text (s : String)
  | bool (b : Bool)
  | integer (n : Int)
  | float (x : Float)
  | absent

def Value.display : Value → String
  | .text s => s
  | .bool true => "true"
  | .bool false => "false"
  | .integer n => toString n
  | .float x => Numeral.floatText x
  | .absent => "None"

/-- Where an event happens. -/
structure Thread where
  name : Option String
  id : Nat
  deriving DecidableEq, Repr

/-- The name of the thread, or its number when it has none. -/
def Thread.label (thread : Thread) : String :=
  thread.name.getD ("ThreadId(" ++ toString thread.id ++ ")")

structure Event where
  level : EventLevel := .info
  target : String := ""
  modulePath : Option String := none
  file : Option String := none
  line : Option Nat := none
  message : String := ""
  pairs : List (String × Value) := []

/-- The record of an event in a thread and a process. The target is its logger and the module its
class; the pairs become properties, in order. -/
def Event.toRecord (event : Event) (thread : Thread) (pid : Nat) (time : Instant)
    (elapsed : Span) : Record where
  time := time
  elapsed := elapsed
  level := event.level.toLevel
  logger := some event.target
  thread := some thread.label
  pid := some pid
  file := event.file
  line := event.line
  className := event.modulePath
  message := event.message
  properties := event.pairs.map fun (key, value) => (key, value.display)

end LogLayout.Facade
