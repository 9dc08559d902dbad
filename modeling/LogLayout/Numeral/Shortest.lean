/-!
# Shortest decimals

The decimal text of a binary floating-point number with the fewest digits that still reads back as
that number; of several such texts the one nearest to the number.

A number `m · 2^q` is read back from every decimal in the interval that reaches halfway to its
neighbours, ends included when `m` is even. For one digit, two digits and so on, the two decimals
next to the number are tried, until one lies in the interval.
-/

namespace LogLayout.Numeral

/-- A positive binary number `mantissa · 2^exponent`. -/
structure Binary where
  mantissa : Nat
  exponent : Int
  deriving DecidableEq, Repr

/-- A positive decimal number `digits · 10^exponent`. -/
structure Decimal where
  digits : Nat
  exponent : Int
  deriving DecidableEq, Repr

/-- Numerator and denominator of `n · base^exponent`. -/
def scaled (base n : Nat) (exponent : Int) : Nat × Nat :=
  if 0 ≤ exponent then (n * base.pow exponent.toNat, 1)
  else (n, base.pow (-exponent).toNat)

def fractionLt (a b : Nat × Nat) : Bool :=
  a.1 * b.2 < b.1 * a.2

def fractionLe (a b : Nat × Nat) : Bool :=
  a.1 * b.2 ≤ b.1 * a.2

namespace Binary

def fraction (b : Binary) : Nat × Nat :=
  scaled 2 b.mantissa b.exponent

/-- The lower end of the interval that reads back. It is nearer when the number is the least of
its exponent and not of the least exponent. -/
def lower (b : Binary) : Nat × Nat :=
  if b.mantissa = 1 <<< 52 ∧ -1074 < b.exponent then
    scaled 2 (4 * b.mantissa - 1) (b.exponent - 2)
  else scaled 2 (2 * b.mantissa - 1) (b.exponent - 1)

/-- The upper end of the interval that reads back. -/
def upper (b : Binary) : Nat × Nat :=
  scaled 2 (2 * b.mantissa + 1) (b.exponent - 1)

/-- Whether a fraction reads back as the number. -/
def readsBack (b : Binary) (value : Nat × Nat) : Bool :=
  if b.mantissa % 2 = 0 then fractionLe b.lower value && fractionLe value b.upper
  else fractionLt b.lower value && fractionLt value b.upper

end Binary

namespace Decimal

def fraction (d : Decimal) : Nat × Nat :=
  scaled 10 d.digits d.exponent

/-- The number without zeros at the end of its digits; `fuel` bounds how many are removed. -/
def normalize (fuel : Nat) (d : Decimal) : Decimal :=
  match fuel with
  | 0 => d
  | fuel + 1 =>
    if d.digits ≠ 0 ∧ d.digits % 10 = 0 then normalize fuel ⟨d.digits / 10, d.exponent + 1⟩ else d

/-- The text without an exponent: zeros are written where the digits do not reach the point. -/
def text (d : Decimal) : String :=
  let digits := Nat.toDigits 10 d.digits
  if 0 ≤ d.exponent then String.ofList (digits ++ List.replicate d.exponent.toNat '0')
  else
    let places := (-d.exponent).toNat
    let digits := List.replicate (places + 1 - digits.length) '0' ++ digits
    let whole := digits.length - places
    String.ofList (digits.take whole ++ '.' :: digits.drop whole)

end Decimal

/-- The whole part of `value / 10^exponent`. -/
def quotient (value : Nat × Nat) (exponent : Int) : Nat :=
  if 0 ≤ exponent then value.1 / (value.2 * Nat.pow 10 exponent.toNat)
  else value.1 * Nat.pow 10 (-exponent).toNat / value.2

/-- The two multiples of `10^exponent` next to the number, as far as they read back, and of both
the nearer; halfway the upper one. -/
def candidate? (b : Binary) (exponent : Int) : Option Decimal :=
  let below : Decimal := ⟨quotient b.fraction exponent, exponent⟩
  let above : Decimal := ⟨below.digits + 1, exponent⟩
  let belowFits := below.digits ≠ 0 && b.readsBack below.fraction
  let aboveFits := b.readsBack above.fraction
  if belowFits && aboveFits then
    let middle := scaled 10 (10 * below.digits + 5) (exponent - 1)
    if fractionLt b.fraction middle then some below else some above
  else if belowFits then some below
  else if aboveFits then some above
  else none

/-- The first candidate, going down from an exponent; `fuel` bounds how far. -/
def search (b : Binary) : Nat → Int → Decimal
  | 0, exponent => ⟨quotient b.fraction exponent, exponent⟩
  | fuel + 1, exponent =>
    match candidate? b exponent with
    | some d => d.normalize 20
    | none => search b fuel (exponent - 1)

/-- The shortest decimal of a number below `10^309` that is not less than `10^-324`. The search
goes from the greatest exponent to the least that can be needed. -/
def shortest (b : Binary) : Decimal :=
  search b 700 309

/-- The finite positive number with these bits, which are those of a number of 64 bits without its
sign. -/
def Binary.ofBits (bits : Nat) : Binary :=
  let fraction := bits % (1 <<< 52)
  let exponent := bits / (1 <<< 52) % (1 <<< 11)
  if exponent = 0 then ⟨fraction, -1074⟩ else ⟨(1 <<< 52) + fraction, Int.ofNat exponent - 1075⟩

/-- The text of a floating-point number: its shortest decimal without an exponent, and without a
point when it is whole. -/
def floatText (x : Float) : String :=
  let bits := x.toBits.toNat
  let sign := if bits < 1 <<< 63 then "" else "-"
  let magnitude := bits % (1 <<< 63)
  if 2047 * (1 <<< 52) < magnitude then "NaN"
  else if magnitude = 2047 * (1 <<< 52) then sign ++ "inf"
  else if magnitude = 0 then sign ++ "0"
  else sign ++ (shortest (.ofBits magnitude)).text

end LogLayout.Numeral
