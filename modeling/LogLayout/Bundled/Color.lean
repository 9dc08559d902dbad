import LogLayout.Palette.Color

/-!
# A library for colours

Names of colours and the codes that select them. A terminal without true colours shows the nearest
of the sixteen named ones.
-/

namespace LogLayout.Palette

namespace Hue

/-- The hues in the order of their codes. -/
def all : List Hue :=
  [.black, .red, .green, .yellow, .blue, .magenta, .cyan, .white]

/-- The place in the order of codes. -/
def code : Hue → Nat
  | .black => 0
  | .red => 1
  | .green => 2
  | .yellow => 3
  | .blue => 4
  | .magenta => 5
  | .cyan => 6
  | .white => 7

def ofName? (name : String) : Option Hue :=
  all.find? fun hue => hue.name == name

end Hue

namespace Color

/-! ## Nearest named colours -/

/-- The named colours with the red, green and blue they are shown in. -/
def named : List (Color × (Nat × Nat × Nat)) :=
  [(.plain .black, (0, 0, 0)), (.plain .red, (205, 0, 0)), (.plain .green, (0, 205, 0)),
    (.plain .yellow, (205, 205, 0)), (.plain .blue, (0, 0, 238)), (.plain .magenta, (205, 0, 205)),
    (.plain .cyan, (0, 205, 205)), (.plain .white, (229, 229, 229)),
    (.bright .black, (127, 127, 127)), (.bright .red, (255, 0, 0)), (.bright .green, (0, 255, 0)),
    (.bright .yellow, (255, 255, 0)), (.bright .blue, (92, 92, 255)),
    (.bright .magenta, (255, 0, 255)), (.bright .cyan, (0, 255, 255)),
    (.bright .white, (255, 255, 255))]

def square (a b : Nat) : Nat :=
  (a - b) * (a - b) + (b - a) * (b - a)

def distance (a b : Nat × Nat × Nat) : Nat :=
  square a.1 b.1 + square a.2.1 b.2.1 + square a.2.2 b.2.2

/-- The candidate nearest to the colour, the first of equals. -/
def nearestOf (shade : Nat × Nat × Nat) :
    Color × (Nat × Nat × Nat) → List (Color × (Nat × Nat × Nat)) → Color
  | best, [] => best.1
  | best, next :: rest =>
    if distance shade next.2 < distance shade best.2 then nearestOf shade next rest
    else nearestOf shade best rest

/-- The named colour nearest to the given one. -/
def nearest (red green blue : UInt8) : Color :=
  nearestOf (red.toNat, green.toNat, blue.toNat) (.plain .black, (0, 0, 0)) named

/-! ## Escape sequences -/

/-- The code that selects a colour of the palette as foreground. -/
def paletteCode : Color → String
  | .plain hue => toString (30 + hue.code)
  | .bright hue => toString (90 + hue.code)
  | .indexed entry => "38;5;" ++ toString entry.toNat
  | .rgb red green blue =>
    "38;2;" ++ toString red.toNat ++ ";" ++ toString green.toNat ++ ";" ++ toString blue.toNat

/-- The code that selects the colour as foreground on that terminal. -/
def foreground (terminal : Terminal) : Color → String
  | .rgb red green blue =>
    if terminal.trueColor then paletteCode (.rgb red green blue)
    else paletteCode (nearest red green blue)
  | color => paletteCode color

/-! ## Reading a colour -/

/-- The lower case of a character, as far as it can occur in the name of a colour: besides the
ASCII letters, the Kelvin sign is a capital `k`. -/
def lowerChar (c : Char) : Char :=
  if c == '\u212a' then 'k' else c.toLower

/-- The value of a lower-case hexadecimal digit. -/
def hexDigit? (c : Char) : Option Nat :=
  if c.isDigit then some (c.toNat - '0'.toNat)
  else if 'a' ≤ c && c ≤ 'f' then some (10 + (c.toNat - 'a'.toNat))
  else none

/-- One hexadecimal digit, doubled. -/
def hexOne? (c : Char) : Option UInt8 :=
  (hexDigit? c).map fun digit => UInt8.ofNat (17 * digit)

/-- Two hexadecimal digits, or `+` and one. -/
def hexTwo? (first second : Char) : Option UInt8 :=
  if first == '+' then (hexDigit? second).map UInt8.ofNat
  else do return UInt8.ofNat (16 * (← hexDigit? first) + (← hexDigit? second))

/-- The colour written in hexadecimal digits, one or two for each part. -/
def ofHex? : List Char → Option Color
  | [r, g, b] => do return .rgb (← hexOne? r) (← hexOne? g) (← hexOne? b)
  | [r, r', g, g', b, b'] => do return .rgb (← hexTwo? r r') (← hexTwo? g g') (← hexTwo? b b')
  | _ => none

/-- The plain colour of that name; magenta is also called purple. -/
def ofHueName? (name : String) : Option Color :=
  if name == "purple" then some (.plain .magenta) else (Hue.ofName? name).map .plain

/-- The colour of that text: a hue, `bright` and a hue behind one space, or `#` and hexadecimal
digits, in any letter case. -/
def parse? (s : String) : Option Color :=
  let lowered := s.toList.map lowerChar
  match lowered with
  | '#' :: digits => ofHex? digits
  | 'b' :: 'r' :: 'i' :: 'g' :: 'h' :: 't' :: ' ' :: hue =>
    (Hue.ofName? (String.ofList hue)).map .bright
  | name => ofHueName? (String.ofList name)

end Color

end LogLayout.Palette
