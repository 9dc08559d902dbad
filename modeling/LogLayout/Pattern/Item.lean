import LogLayout.Pattern.Piece

/-!
# Items of a pattern

What a pattern asks for: runs of literal text, and directives with their positions. Neighbouring
pieces of literal text become one run.
-/

namespace LogLayout.Pattern

variable {α : Type}

inductive Item (α : Type) where
  | text (text : List Char)
  | directive (offset : Nat) (d : Directive α)

namespace Item

/-- Puts literal text before the items, joined to a run that they begin with. -/
def consText (text : List Char) : List (Item α) → List (Item α)
  | .text more :: items => .text (text ++ more) :: items
  | items => .text text :: items

/-- The items of pieces that begin at the position. Malformed pieces are literal text as they are
written. -/
def ofPieces (offset : Nat) : List (Piece α) → List (Item α)
  | [] => []
  | piece :: rest =>
    let items := ofPieces (offset + Text.byteLength piece.source) rest
    match piece with
    | .directive d => .directive offset d :: items
    | .percent => consText ['%'] items
    | piece => consText piece.source items

end Item

end LogLayout.Pattern
