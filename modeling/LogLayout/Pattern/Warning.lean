import LogLayout.Pattern.Piece

/-!
# Warnings

What is malformed in a pattern is kept as literal text or ignored, and each such place is warned
of with its position.
-/

namespace LogLayout.Pattern

variable {α : Type}

inductive Problem where
  | danglingPercent
  | missingName
  | unknownName (word : List Char)
  | minimumOutOfRange
  | maximumOutOfRange
  | missingMaximum
  | unterminatedBlock
  deriving DecidableEq, Repr

structure Warning where
  offset : Nat
  problem : Problem
  deriving DecidableEq, Repr

def Problem.message : Problem → String
  | .danglingPercent => "dangling '%' at end of pattern"
  | .missingName => "missing directive name after '%'"
  | .unknownName word => "unknown directive '" ++ String.ofList word ++ "'"
  | .minimumOutOfRange => "minimum width out of range is ignored"
  | .maximumOutOfRange => "maximum width out of range is ignored"
  | .missingMaximum => "missing maximum width after '.'"
  | .unterminatedBlock => "unterminated option block is rendered literally"

def Warning.message (w : Warning) : String :=
  w.problem.message ++ " (at offset " ++ toString w.offset ++ ")"

/-- The warning of a greatest width: at its first digit, or where that is missing. -/
def MaximumText.warnings (offset : Nat) (m : MaximumText) : List Warning :=
  let start := offset + Text.byteLength (dashText m.keepsHead)
  if m.digits = [] then [⟨start, .missingMaximum⟩]
  else if width? m.digits = none then [⟨start, .maximumOutOfRange⟩]
  else []

/-- The warnings of modifiers that begin at the position: of the least width at its first digit,
then of the greatest. -/
def Modifiers.warnings (offset : Nat) (m : Modifiers) : List Warning :=
  let start := offset + Text.byteLength (dashText m.leftJustified)
  (if m.minimum ≠ [] ∧ width? m.minimum = none then [⟨start, .minimumOutOfRange⟩] else []) ++
    match m.maximum with
    | none => []
    | some maximum => maximum.warnings (start + Text.byteLength m.minimum + 1)

/-- The warning of an unterminated block, at its brace. -/
def OptionPart.warnings (offset : Nat) : OptionPart → List Warning
  | .unterminated => [⟨offset, .unterminatedBlock⟩]
  | _ => []

/-- The warnings of modifiers, a name and a block behind a `%` at the position. -/
def namedWarnings (offset : Nat) (modifiers : Modifiers) (name : List Char)
    (options : OptionPart) : List Warning :=
  modifiers.warnings (offset + 1) ++
    options.warnings (offset + 1 + Text.byteLength (modifiers.source ++ name))

/-- The warnings of a piece that begins at the position. -/
def Piece.warnings (offset : Nat) : Piece α → List Warning
  | .plain _ | .percent => []
  | .dangling => [⟨offset, .danglingPercent⟩]
  | .nameless modifiers => modifiers.warnings (offset + 1) ++ [⟨offset, .missingName⟩]
  | .unknown modifiers word options =>
    namedWarnings offset modifiers word options ++ [⟨offset, .unknownName word⟩]
  | .directive d => namedWarnings offset d.modifiers d.token d.options

/-- The warnings of pieces that begin at the position, in order. -/
def warningsOf (offset : Nat) : List (Piece α) → List Warning
  | [] => []
  | piece :: rest =>
    piece.warnings offset ++ warningsOf (offset + Text.byteLength piece.source) rest

end LogLayout.Pattern
