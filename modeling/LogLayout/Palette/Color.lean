/-!
# Terminal colours

Colours as a terminal knows them: the eight plain hues and their bright forms, the entries of the
256-colour palette, and true colours given by red, green and blue.
-/

namespace LogLayout.Palette

structure Terminal where
  /-- Whether any colour is written at all. -/
  showsColor : Bool := true
  /-- Whether true colours are written as such. -/
  trueColor : Bool := false
  deriving DecidableEq, Repr

inductive Hue where
  | black
  | red
  | green
  | yellow
  | blue
  | magenta
  | cyan
  | white
  deriving DecidableEq, Repr

inductive Color where
  | plain (hue : Hue)
  | bright (hue : Hue)
  | indexed (entry : UInt8)
  | rgb (red green blue : UInt8)
  deriving DecidableEq, Repr

def Hue.name : Hue → String
  | .black => "black"
  | .red => "red"
  | .green => "green"
  | .yellow => "yellow"
  | .blue => "blue"
  | .magenta => "magenta"
  | .cyan => "cyan"
  | .white => "white"

namespace Color

/-! ## The colour as a text for inspection -/

/-- The name of the hue with a capital. -/
def capitalized (hue : Hue) : String :=
  match hue.name.toList with
  | [] => ""
  | c :: rest => String.ofList (c.toUpper :: rest)

def describe : Color → String
  | .plain hue => capitalized hue
  | .bright hue => "Bright" ++ capitalized hue
  | .indexed entry => "AnsiColor(" ++ toString entry.toNat ++ ")"
  | .rgb red green blue =>
    "TrueColor \x7b r: " ++ toString red.toNat ++ ", g: " ++ toString green.toNat ++ ", b: " ++
      toString blue.toNat ++ " \x7d"

end Color

end LogLayout.Palette
