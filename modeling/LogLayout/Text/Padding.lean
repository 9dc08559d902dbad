/-!
# Padding to a width

A short text set into a column: cut to at most so many characters, then filled up to at least so
many.
-/

namespace LogLayout.Text

/-- Where the text stands in its column. -/
inductive Alignment where
  | left
  | right
  | center
  deriving DecidableEq, Repr

/-- A column: its alignment, fill character, least width, and the most characters it takes. -/
structure Column where
  alignment : Alignment := .left
  fill : Char := ' '
  width : Nat := 0
  limit : Option Nat := none
  deriving DecidableEq, Repr

namespace Column

/-- The fill characters before a text that leaves `room` of them; a centred text has the odd one
behind it. -/
def before (column : Column) (room : Nat) : Nat :=
  match column.alignment with
  | .left => 0
  | .right => room
  | .center => room / 2

/-- The text set into the column. -/
def set (column : Column) (s : String) : String :=
  let kept := match column.limit with
    | none => s.toList
    | some most => s.toList.take most
  let room := column.width - kept.length
  let front := column.before room
  String.ofList (List.replicate front column.fill ++ kept ++
    List.replicate (room - front) column.fill)

end Column

end LogLayout.Text
