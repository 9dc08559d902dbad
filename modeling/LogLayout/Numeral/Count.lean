import LogLayout.Text.Segments

/-!
# Reading a count

A count is a positive whole number of at most 64 bits in decimal digits, with any number of
leading zeros and perhaps one leading `+`.

The digits are read one by one, and the value is checked after each; `readUnsigned_eq_ok_iff` says
that this finds the number that a run of digits denotes.
-/

namespace LogLayout.Numeral

open LogLayout.Text (SegmentCount)

inductive CountError where
  | empty
  | invalidDigit
  | tooLarge
  | zero
  deriving DecidableEq, Repr

def CountError.message : CountError → String
  | .empty => "cannot parse integer from empty string"
  | .invalidDigit => "invalid digit found in string"
  | .tooLarge => "number too large to fit in target type"
  | .zero => "number would be zero for non-zero type"

def maxCount : Nat := UInt64.size - 1

/-- Reads digits from the left onto `value`. The leftmost character that is no digit or makes the
value too large is the problem; of the two, being no digit counts first. -/
def readDigits (value : Nat) : List Char → Except CountError Nat
  | [] => .ok value
  | c :: rest =>
    if !c.isDigit then .error .invalidDigit
    else
      let next := 10 * value + (c.toNat - '0'.toNat)
      if next ≤ maxCount then readDigits next rest else .error .tooLarge

/-- The digits behind an optional `+`; a sign alone is no number. -/
def readUnsigned : List Char → Except CountError Nat
  | [] => .error .empty
  | ['+'] => .error .invalidDigit
  | '+' :: digits => readDigits 0 digits
  | digits => readDigits 0 digits

def readCount (s : String) : Except CountError SegmentCount :=
  match readUnsigned s.toList with
  | .error e => .error e
  | .ok 0 => .error .zero
  | .ok (n + 1) => .ok ⟨n + 1, n.succ_pos⟩

/-! ## The number of a run of digits -/

theorem le_ofDigitChars (digits : List Char) (value : Nat) :
    value ≤ Nat.ofDigitChars 10 digits value := by
  induction digits generalizing value with
  | nil => exact Nat.le_refl value
  | cons c digits ih =>
    rw [Nat.ofDigitChars_cons]
    refine Nat.le_trans ?_ (ih _)
    omega

/-- The checks after each digit come to one check at the end, as no digit makes a value smaller. -/
theorem readDigits_eq_ok_iff {digits : List Char} (h : ∀ c ∈ digits, c.isDigit) {value n : Nat}
    (hvalue : value ≤ maxCount) :
    readDigits value digits = .ok n ↔ Nat.ofDigitChars 10 digits value = n ∧ n ≤ maxCount := by
  fun_induction readDigits value digits with
  | case1 value =>
    rw [Nat.ofDigitChars_nil, Except.ok.injEq]
    constructor
    · rintro rfl
      exact ⟨rfl, hvalue⟩
    · exact And.left
  | case2 value c rest hc =>
    rw [h c List.mem_cons_self] at hc
    cases hc
  | case3 value c rest _ next hnext ih =>
    rw [Nat.ofDigitChars_cons]
    exact ih (fun d hd => h d (List.mem_cons_of_mem c hd)) hnext
  | case4 value c rest _ next hnext =>
    rw [Nat.ofDigitChars_cons]
    have hle := le_ofDigitChars rest next
    constructor
    · rintro ⟨⟩
    · rintro ⟨rfl, hsmall⟩
      exact absurd (Nat.le_trans hle hsmall) hnext

theorem readUnsigned_eq_ok_iff {digits : List Char} (hne : digits ≠ [])
    (h : ∀ c ∈ digits, c.isDigit) {n : Nat} :
    readUnsigned digits = .ok n ↔ Nat.ofDigitChars 10 digits 0 = n ∧ n ≤ maxCount := by
  have hsign : '+' ∉ digits := fun hmem => absurd (h '+' hmem) (by decide)
  unfold readUnsigned
  split
  · exact absurd rfl hne
  · exact absurd List.mem_cons_self hsign
  · exact absurd List.mem_cons_self hsign
  · exact readDigits_eq_ok_iff h (Nat.zero_le maxCount)

end LogLayout.Numeral
