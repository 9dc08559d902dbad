import LogLayout.Text.Size

/-!
# Segments of a dotted name

A name such as `my_app::auth.Session` is cut into segments at each `.` and each `::`. Colons are
paired from the right, so a colon left over belongs to the segment before it. Abbreviating a name
keeps its last segments with the separators between them.

The separators are searched for in the bytes of the name, from its end. There is no result when the
search leaves the name, or when what it keeps would begin inside a character.
-/

namespace LogLayout.Text

/-- How many segments a name keeps: at least one. -/
structure SegmentCount where
  val : Nat
  pos : 0 < val
  deriving DecidableEq, Repr

/-- The byte of a point. -/
def point : UInt8 := 0x2E

/-- The byte of a colon. -/
def colon : UInt8 := 0x3A

/-- Whether a separator ends with the byte at the index: a point, or a colon behind another one. -/
def endsSeparator? (bytes : Array UInt8) (index : Nat) : Option Bool := do
  let byte ← bytes[index]?
  if byte = point then return true
  else if byte = colon then
    match index with
    | 0 => return false
    | before + 1 => return (← bytes[before]?) == colon
  else return false

/-- Searches the bytes before an index from the last to the first, with so many separators behind
them, and gives the index behind the separator that makes up the count, or the first index. -/
def segmentStart? (bytes : Array UInt8) (count seen : Nat) : Nat → Option Nat
  | 0 => some 0
  | index + 1 =>
    match endsSeparator? bytes index with
    | none => none
    | some false => segmentStart? bytes count seen index
    | some true =>
      if seen + 1 = count then some (index + 1)
      else if bytes[index]? = some colon then
        -- the colon before this one is left out, if there is a byte before this one
        match index with
        | 0 => none
        | index + 1 => segmentStart? bytes count (seen + 1) index
      else segmentStart? bytes count (seen + 1) index

/-- The end of the name from where the search for the separators stops. -/
def lastSegments? (count : SegmentCount) (name : String) : Option String := do
  let bytes := name.toUTF8.data
  let start ← segmentStart? bytes count.val 0 bytes.size
  let (_, kept) ← splitAt? start name.toList
  return String.ofList kept

/-- The last `count` segments of the name, the whole name when it has no more. -/
def lastSegments (count : SegmentCount) (name : String) : String :=
  (lastSegments? count name).getD name

end LogLayout.Text
