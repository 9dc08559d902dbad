import LogLayout.Fitting.Specifier
import LogLayout.Numeral.Count

/-!
# Modifiers of a directive

Between the `%` of a directive and its name may stand `-`, the digits of a least width, and behind
a point another `-` and the digits of a greatest width. Each part is taken as far as it goes, and
kept as it is written; the specifier is read off afterwards, and a width that is missing or out of
range counts as absent.
-/

namespace LogLayout.Pattern

open LogLayout.Fitting (Side Limit Specifier)

/-- The greatest width that is honoured. -/
def widthLimit : Nat := 65535

/-- The value of a run of digits, unless it is empty or the value is out of range. -/
def width? (digits : List Char) : Option Nat :=
  if digits = [] then none
  else (Numeral.readUnsigned digits).toOption.filter fun width => width ≤ widthLimit

/-- What stands behind the point: perhaps `-`, then digits. -/
structure MaximumText where
  keepsHead : Bool
  digits : List Char
  deriving DecidableEq, Repr

/-- The modifiers as they are written. -/
structure Modifiers where
  leftJustified : Bool
  minimum : List Char
  maximum : Option MaximumText
  deriving DecidableEq, Repr

def dashText (present : Bool) : List Char :=
  if present then ['-'] else []

def readDash : List Char → Bool × List Char
  | '-' :: rest => (true, rest)
  | cs => (false, cs)

def readDigits (cs : List Char) : List Char × List Char :=
  (cs.takeWhile Char.isDigit, cs.dropWhile Char.isDigit)

namespace MaximumText

def source (m : MaximumText) : List Char :=
  dashText m.keepsHead ++ m.digits

def read (cs : List Char) : MaximumText × List Char :=
  let (keepsHead, cs) := readDash cs
  let (digits, cs) := readDigits cs
  (⟨keepsHead, digits⟩, cs)

/-- The limit that the text stands for: with `-` it keeps the head of a long text, otherwise the
tail. -/
def limit? (m : MaximumText) : Option Limit :=
  (width? m.digits).map fun width => ⟨width, if m.keepsHead then Side.head else Side.tail⟩

end MaximumText

namespace Modifiers

/-- The text of the point and what stands behind it. -/
def maximumSource (m : Modifiers) : List Char :=
  match m.maximum with
  | none => []
  | some maximum => '.' :: maximum.source

def source (m : Modifiers) : List Char :=
  dashText m.leftJustified ++ m.minimum ++ m.maximumSource

def read (cs : List Char) : Modifiers × List Char :=
  let (leftJustified, cs) := readDash cs
  let (minimum, cs) := readDigits cs
  match cs with
  | '.' :: cs =>
    let (maximum, cs) := MaximumText.read cs
    (⟨leftJustified, minimum, some maximum⟩, cs)
  | cs => (⟨leftJustified, minimum, none⟩, cs)

def specifier (m : Modifiers) : Specifier where
  minWidth := width? m.minimum
  justification := if m.leftJustified then .left else .right
  limit := m.maximum.bind MaximumText.limit?

end Modifiers

/-! ## The value of a width -/

theorem width?_eq_some_iff {digits : List Char} (h : ∀ c ∈ digits, c.isDigit) {width : Nat} :
    width? digits = some width ↔
      digits ≠ [] ∧ Nat.ofDigitChars 10 digits 0 = width ∧ width ≤ widthLimit := by
  have hlimit : widthLimit ≤ Numeral.maxCount := by decide
  unfold width?
  by_cases hne : digits = []
  · rw [if_pos hne]
    constructor
    · rintro ⟨⟩
    · exact fun hsome => absurd hne hsome.1
  · have hread := Numeral.readUnsigned_eq_ok_iff hne h (n := width)
    rw [if_neg hne, Option.filter_eq_some_iff, decide_eq_true_eq]
    constructor
    · rintro ⟨hsome, hwidth⟩
      cases hvalue : Numeral.readUnsigned digits with
      | error problem =>
        rw [hvalue] at hsome
        cases hsome
      | ok n =>
        rw [hvalue] at hsome
        cases hsome
        exact ⟨hne, (hread.mp hvalue).1, hwidth⟩
    · rintro ⟨_, hvalue, hwidth⟩
      rw [hread.mpr ⟨hvalue, Nat.le_trans hwidth hlimit⟩]
      exact ⟨rfl, hwidth⟩

/-! ## Nothing is lost -/

theorem dashText_append_readDash (cs : List Char) :
    dashText (readDash cs).1 ++ (readDash cs).2 = cs := by
  unfold readDash
  split <;> rfl

theorem readDigits_append (cs : List Char) : (readDigits cs).1 ++ (readDigits cs).2 = cs :=
  List.takeWhile_append_dropWhile

theorem MaximumText.source_append_read (cs : List Char) :
    (MaximumText.read cs).1.source ++ (MaximumText.read cs).2 = cs := by
  simp only [MaximumText.read, MaximumText.source, List.append_assoc, readDigits_append,
    dashText_append_readDash]

/-- The modifiers and what is left of the text make up the text. -/
theorem Modifiers.source_append_read (cs : List Char) :
    (Modifiers.read cs).1.source ++ (Modifiers.read cs).2 = cs := by
  have hdash := dashText_append_readDash cs
  have hdigits := readDigits_append (readDash cs).2
  simp only [Modifiers.read]
  split
  · rename_i rest hrest
    have hmax := MaximumText.source_append_read rest
    simp only [Modifiers.source, Modifiers.maximumSource, List.append_assoc, List.cons_append, hmax]
    rw [← hrest, hdigits, hdash]
  · simp only [Modifiers.source, Modifiers.maximumSource, List.append_assoc, List.nil_append,
      hdigits, hdash]

end LogLayout.Pattern
