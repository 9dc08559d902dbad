import LogLayout.Calendar.CivilTime
import Mathlib

/-!
# Numbers of a fixed width

A number that is written with so many digits that zeros may stand first. Such numbers are in the
order of their texts, and so are texts that begin with them.

Results:
1. `zeroPadded_eq`: a number that fits is written with exactly as many digits as its width.
2. `digits_append_lt_iff`: texts that begin with numbers of the same width are in the order of the
   numbers, and after the same number in the order of what stands behind it.
-/

namespace LogLayout.Calendar

/-- The last digits of a number, as many as the width. -/
def digits : Nat → Nat → List Char
  | 0, _ => []
  | width + 1, n => digits width (n / 10) ++ [Nat.digitChar (n % 10)]

variable {width : Nat}

theorem length_digits (width n : Nat) : (digits width n).length = width := by
  induction width generalizing n with
  | zero => rfl
  | succ width ih => rw [digits, List.length_append, ih, List.length_singleton]

theorem digits_zero (width : Nat) : digits width 0 = List.replicate width '0' := by
  induction width with
  | zero => rfl
  | succ width ih =>
    rw [digits, Nat.zero_div, ih, List.replicate_succ']
    rfl

theorem div_ten_lt {n : Nat} (h : n < 10 ^ (width + 1)) : n / 10 < 10 ^ width := by
  rw [Nat.div_lt_iff_lt_mul (by decide), ← Nat.pow_succ]
  exact h

theorem ascii_of_mem_digits {n : Nat} {c : Char} (h : c ∈ digits width n) : c.toNat < 128 := by
  induction width generalizing n with
  | zero => cases h
  | succ width ih =>
    rcases List.mem_append.mp h with h | h
    · exact ih h
    · rw [List.mem_singleton.mp h, Nat.toNat_digitChar_of_lt_ten (Nat.mod_lt n (by decide))]
      omega

/-! ## Written numbers -/

theorem zeroPadded_eq {n : Nat} (hwidth : 0 < width) (hn : n < 10 ^ width) :
    zeroPadded width n = digits width n := by
  induction width generalizing n with
  | zero => cases hwidth
  | succ width ih =>
    show List.replicate (width + 1 - (Nat.toDigits 10 n).length) '0' ++ Nat.toDigits 10 n =
      digits width (n / 10) ++ [Nat.digitChar (n % 10)]
    rcases Nat.lt_or_ge n 10 with hsmall | hbig
    · rw [Nat.toDigits_of_lt_base hsmall, Nat.div_eq_of_lt hsmall, Nat.mod_eq_of_lt hsmall,
        digits_zero]
      rfl
    · have hrest : 0 < width := by
        refine Nat.pos_of_ne_zero fun hzero => ?_
        rw [hzero] at hn
        exact Nat.not_le_of_lt hn hbig
      have hpadded := ih hrest (div_ten_lt hn)
      unfold zeroPadded at hpadded
      dsimp only at hpadded
      rw [Nat.toDigits_of_base_le (by decide) hbig, List.length_append, List.length_singleton,
        Nat.add_sub_add_right, ← List.append_assoc, hpadded]

/-! ## The order of texts -/

theorem digitChar_lt_iff {a b : Nat} (ha : a < 10) (hb : b < 10) :
    Nat.digitChar a < Nat.digitChar b ↔ a < b := by
  show (Nat.digitChar a).toNat < (Nat.digitChar b).toNat ↔ a < b
  rw [Nat.toNat_digitChar_of_lt_ten ha, Nat.toNat_digitChar_of_lt_ten hb, Nat.add_lt_add_iff_left]

theorem digitChar_inj_iff {a b : Nat} (ha : a < 10) (hb : b < 10) :
    Nat.digitChar a = Nat.digitChar b ↔ a = b := by
  rw [← Char.toNat_inj, Nat.toNat_digitChar_of_lt_ten ha, Nat.toNat_digitChar_of_lt_ten hb,
    Nat.add_left_cancel_iff]

theorem cons_lt_cons_self_iff {c : Char} {x y : List Char} : c :: x < c :: y ↔ x < y := by
  rw [List.cons_lt_cons_iff, or_iff_right (Char.lt_irrefl c), and_iff_right rfl]

/-- The induction is on the width; the last digit is the first character of what stands behind the
other digits. -/
theorem digits_append_lt_iff {a b : Nat} {x y : List Char} (ha : a < 10 ^ width)
    (hb : b < 10 ^ width) :
    digits width a ++ x < digits width b ++ y ↔ a < b ∨ a = b ∧ x < y := by
  induction width generalizing a b x y with
  | zero =>
    obtain rfl : a = 0 := Nat.lt_one_iff.mp ha
    obtain rfl : b = 0 := Nat.lt_one_iff.mp hb
    simp [digits]
  | succ width ih =>
    have hdigitA : a % 10 < 10 := Nat.mod_lt a (by decide)
    have hdigitB : b % 10 < 10 := Nat.mod_lt b (by decide)
    have hlt : a < b ↔ a / 10 < b / 10 ∨ a / 10 = b / 10 ∧ a % 10 < b % 10 := by omega
    have heq : a = b ↔ a / 10 = b / 10 ∧ a % 10 = b % 10 := by omega
    rw [digits, digits, List.append_assoc, List.append_assoc, ih (div_ten_lt ha) (div_ten_lt hb),
      List.singleton_append, List.singleton_append, List.cons_lt_cons_iff,
      digitChar_lt_iff hdigitA hdigitB, digitChar_inj_iff hdigitA hdigitB, hlt, heq,
      and_or_left, or_assoc, and_assoc]

end LogLayout.Calendar
