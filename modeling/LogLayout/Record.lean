import LogLayout.Instant
import LogLayout.Level

/-!
# Log records

What a layout sees of one logging call. Every field except the level, the time and the message may
be absent.
-/

namespace LogLayout

/-- One log record. The properties keep the order in which they were added. -/
structure Record where
  time : Instant := .epoch
  elapsed : Span := ⟨0⟩
  level : Level := .info
  logger : Option String := none
  thread : Option String := none
  pid : Option Nat := none
  file : Option String := none
  line : Option Nat := none
  method : Option String := none
  className : Option String := none
  message : String := ""
  properties : List (String × String) := []
  deriving DecidableEq, Repr

def isPathSeparator (c : Char) : Bool :=
  c == '/' || c == '\\'

/-- The part of a path behind its last separator. -/
def baseName (path : String) : String :=
  String.ofList (path.toList.reverse.takeWhile fun c => !isPathSeparator c).reverse

namespace Record

def fileName (r : Record) : Option String :=
  r.file.map baseName

/-- The value of the first property of that name. -/
def property (r : Record) (key : String) : Option String :=
  r.properties.lookup key

/-- The record with one more property behind the others. -/
def addProperty (r : Record) (key value : String) : Record :=
  { r with properties := r.properties ++ [(key, value)] }

end Record

end LogLayout
