import LogLayout.Pattern.Modifiers
import Mathlib.Data.List.TakeWhile

/-!
# Modifiers are the longest that fit

Modifier texts are the words of `[-][digits][.[-][digits]]`. Reading them takes the longest such
word that the text begins with, and there is one way to take it apart.

Results:
1. `IsRun`: a run of characters of a class that ends where the class does.
2. `Modifiers.read_append`: well-formed modifiers are read back in front of any text that cannot go
   on with them.
3. `Modifiers.read_eq_iff`: reading yields exactly the longest well-formed modifiers.
-/

namespace LogLayout.Pattern

/-! ## Runs of characters -/

/-- A run of characters of a class, with no such character right behind it. -/
structure IsRun (p : Char → Bool) (run rest : List Char) : Prop where
  all : ∀ c ∈ run, p c
  stop : ∀ c, rest.head? = some c → p c = false

section Runs

variable {p : Char → Bool} {run rest : List Char}

theorem isRun_takeWhile (p : Char → Bool) (cs : List Char) :
    IsRun p (cs.takeWhile p) (cs.dropWhile p) := by
  refine ⟨fun c hc => List.mem_takeWhile_imp hc, fun c hc => ?_⟩
  have hhead := List.head?_dropWhile_not p cs
  rw [hc] at hhead
  exact hhead

theorem IsRun.dropWhile_rest (h : IsRun p run rest) : rest.dropWhile p = rest := by
  cases rest with
  | nil => rfl
  | cons c rest => rw [List.dropWhile_cons_of_neg (by rw [h.stop c rfl]; exact Bool.false_ne_true)]

theorem IsRun.dropWhile_append (h : IsRun p run rest) : (run ++ rest).dropWhile p = rest := by
  rw [List.dropWhile_append_of_pos h.all, h.dropWhile_rest]

theorem IsRun.takeWhile_append (h : IsRun p run rest) : (run ++ rest).takeWhile p = run := by
  have hboth := List.takeWhile_append_dropWhile (p := p) (l := run ++ rest)
  rw [h.dropWhile_append] at hboth
  exact List.append_cancel_right hboth

end Runs

/-! ## Words of the modifiers -/

/-- The modifiers are written with digits where digits are due. -/
structure Modifiers.WellFormed (m : Modifiers) : Prop where
  minimum : ∀ c ∈ m.minimum, c.isDigit
  maximum : ∀ text ∈ m.maximum, ∀ c ∈ text.digits, c.isDigit

/-- Well-formed modifiers that stand before the rest of a text and are the longest there. -/
structure Modifiers.IsLongest (m : Modifiers) (rest : List Char) : Prop where
  wellFormed : m.WellFormed
  longest : ∀ other : Modifiers, other.WellFormed → other.source <+: m.source ++ rest →
    other.source.length ≤ m.source.length

/-- The text does not go on with any part of modifiers. -/
def StopsModifiers (rest : List Char) : Prop :=
  ∀ c, rest.head? = some c → c ≠ '-' ∧ c ≠ '.' ∧ c.isDigit = false

theorem isDigit_eq_false_of_isAlpha {c : Char} (h : c.isAlpha) : c.isDigit = false := by
  cases hdigit : c.isDigit with
  | false => rfl
  | true =>
    have hle : c.val ≤ 57 := of_decide_eq_true (Bool.and_eq_true_iff.mp hdigit).2
    rcases Bool.or_eq_true_iff.mp h with h | h
    · have hupper : 65 ≤ c.val ∧ c.val ≤ 90 := of_decide_eq_true h
      exact absurd (UInt32.le_trans hupper.1 hle) (by decide)
    · have hge : 97 ≤ c.val := of_decide_eq_true (Bool.and_eq_true_iff.mp h).1
      exact absurd (UInt32.le_trans hge hle) (by decide)

theorem stopsModifiers_of_isAlpha {word : List Char} (hne : word ≠ [])
    (hword : ∀ c ∈ word, c.isAlpha) (rest : List Char) : StopsModifiers (word ++ rest) := by
  obtain ⟨first, word, rfl⟩ := List.exists_cons_of_ne_nil hne
  intro c hc
  obtain rfl : first = c := Option.some.inj hc
  have halpha := hword first List.mem_cons_self
  refine ⟨?_, ?_, ?_⟩
  · rintro rfl
    exact absurd halpha (by decide)
  · rintro rfl
    exact absurd halpha (by decide)
  · exact isDigit_eq_false_of_isAlpha halpha

/-! ## Reading a sign and digits -/

theorem readDash_of_head {cs : List Char} (h : cs.head? ≠ some '-') :
    readDash cs = (false, cs) := by
  unfold readDash
  split
  · exact absurd rfl h
  · rfl

theorem readDash_append (present : Bool) {digits rest : List Char}
    (hdigits : ∀ c ∈ digits, c.isDigit) (hrest : digits = [] → rest.head? ≠ some '-') :
    readDash (dashText present ++ (digits ++ rest)) = (present, digits ++ rest) := by
  cases present with
  | true => rfl
  | false =>
    refine readDash_of_head ?_
    cases digits with
    | nil => exact hrest rfl
    | cons c digits =>
      intro hc
      have hdigit := hdigits c List.mem_cons_self
      rw [Option.some.inj hc] at hdigit
      exact absurd hdigit (by decide)

theorem readDigits_append_of_isRun {digits rest : List Char} (h : IsRun Char.isDigit digits rest) :
    readDigits (digits ++ rest) = (digits, rest) := by
  unfold readDigits
  rw [h.takeWhile_append, h.dropWhile_append]

/-- Whatever follows a sign and digits, at least these are read. -/
theorem length_readDigits_readDash_le (present : Bool) {digits : List Char}
    (hdigits : ∀ c ∈ digits, c.isDigit) (rest : List Char) :
    (readDigits (readDash (dashText present ++ (digits ++ rest))).2).2.length ≤ rest.length := by
  by_cases hrest : digits = [] → rest.head? ≠ some '-'
  · rw [readDash_append present hdigits hrest]
    simp only [readDigits, List.dropWhile_append_of_pos hdigits]
    exact (List.dropWhile_suffix _).length_le
  · -- the text begins with a sign of its own, which is read when none was written before it
    obtain ⟨rfl, hdash⟩ := Classical.not_imp.mp hrest
    have hread : ∀ cs : List Char, (readDigits (readDash cs).2).2.length ≤ cs.length := by
      intro cs
      have hdash := congrArg List.length (dashText_append_readDash cs)
      have hdigits := congrArg List.length (readDigits_append (readDash cs).2)
      rw [List.length_append] at hdash hdigits
      omega
    cases present with
    | true => exact (List.dropWhile_suffix _).length_le
    | false => exact hread rest

namespace Modifiers

variable {m other : Modifiers} {cs rest : List Char}

/-! ## Reading modifiers back -/

theorem source_none (left : Bool) (minimum : List Char) :
    (⟨left, minimum, none⟩ : Modifiers).source ++ rest = dashText left ++ (minimum ++ rest) := by
  simp only [source, maximumSource, List.append_nil, List.append_assoc]

theorem source_some (left : Bool) (minimum : List Char) (text : MaximumText) :
    (⟨left, minimum, some text⟩ : Modifiers).source ++ rest =
      dashText left ++ (minimum ++ '.' :: (text.source ++ rest)) := by
  simp only [source, maximumSource, List.append_assoc, List.cons_append]

/-- Up to the point modifiers are read back whatever stands behind it. -/
theorem read_point {left : Bool} {minimum : List Char} (h : ∀ c ∈ minimum, c.isDigit) :
    read (dashText left ++ (minimum ++ '.' :: cs)) =
      (⟨left, minimum, some (MaximumText.read cs).1⟩, (MaximumText.read cs).2) := by
  have hrun : IsRun Char.isDigit minimum ('.' :: cs) := by
    refine ⟨h, fun c hc => ?_⟩
    rw [← Option.some.inj hc]
    rfl
  unfold read
  rw [readDash_append left h fun _ => by simp]
  simp only [readDigits_append_of_isRun hrun]

theorem read_no_point (h : (readDigits (readDash cs).2).2.head? ≠ some '.') :
    read cs = (⟨(readDash cs).1, (readDigits (readDash cs).2).1, none⟩,
      (readDigits (readDash cs).2).2) := by
  unfold read
  dsimp only
  split
  · rename_i hpoint
    rw [hpoint] at h
    exact absurd rfl h
  · rfl

theorem read_append (h : m.WellFormed) (hrest : StopsModifiers rest) :
    read (m.source ++ rest) = (m, rest) := by
  obtain ⟨left, minimum, maximum⟩ := m
  have hdash : ∀ digits : List Char, digits = [] → rest.head? ≠ some '-' :=
    fun _ _ hc => (hrest '-' hc).1 rfl
  cases maximum with
  | none =>
    have hdigits := readDigits_append_of_isRun ⟨h.minimum, fun c hc => (hrest c hc).2.2⟩
    have hread := readDash_append left h.minimum (hdash minimum)
    rw [source_none, read_no_point]
    · rw [hread, hdigits]
    · rw [hread, hdigits]
      exact fun hc => (hrest '.' hc).2.1 rfl
  | some text =>
    have hall := h.maximum text rfl
    have hdigits := readDigits_append_of_isRun ⟨hall, fun c hc => (hrest c hc).2.2⟩
    have hread := readDash_append text.keepsHead hall (hdash text.digits)
    rw [source_some, read_point h.minimum]
    simp only [MaximumText.read, MaximumText.source, List.append_assoc, hread, hdigits]

theorem percent_notMem_source (h : m.WellFormed) : '%' ∉ m.source := by
  have hdash : ∀ present, '%' ∉ dashText present := by decide
  have hdigits : ∀ digits : List Char, (∀ c ∈ digits, c.isDigit) → '%' ∉ digits :=
    fun digits hdigits hmem => absurd (hdigits '%' hmem) (by decide)
  obtain ⟨left, minimum, maximum⟩ := m
  intro hmem
  rcases List.mem_append.mp hmem with hmem | hmem
  · rcases List.mem_append.mp hmem with hmem | hmem
    · exact hdash left hmem
    · exact hdigits minimum h.minimum hmem
  · cases maximum with
    | none => cases hmem
    | some text =>
      rcases List.mem_append.mp ((List.mem_cons.mp hmem).resolve_left (by decide)) with hmem | hmem
      · exact hdash text.keepsHead hmem
      · exact hdigits text.digits (h.maximum text rfl) hmem

theorem eq_of_source_eq (hm : m.WellFormed) (ho : other.WellFormed) (h : m.source = other.source) :
    m = other := by
  have hstops : StopsModifiers [] := fun c hc => by cases hc
  have hread := read_append hm hstops
  rw [h, read_append ho hstops] at hread
  exact (congrArg Prod.fst hread).symm

/-! ## What is read is the longest -/

theorem read_wellFormed (cs : List Char) : (read cs).1.WellFormed := by
  have hdigits : ∀ cs : List Char, ∀ c ∈ (readDigits cs).1, c.isDigit :=
    fun cs c hc => List.mem_takeWhile_imp hc
  unfold read
  dsimp only
  split
  · refine ⟨hdigits _, fun text htext => ?_⟩
    rw [← Option.some.inj htext]
    exact hdigits _
  · refine ⟨hdigits _, fun text htext => ?_⟩
    cases htext

/-- Whatever follows well-formed modifiers, at least these are read. -/
theorem length_read_le (h : m.WellFormed) (rest : List Char) :
    (read (m.source ++ rest)).2.length ≤ rest.length := by
  obtain ⟨left, minimum, maximum⟩ := m
  cases maximum with
  | none =>
    have hle := length_readDigits_readDash_le left h.minimum rest
    rw [source_none]
    -- a point may follow, and then more is read than was written
    by_cases hpoint : (readDigits (readDash (dashText left ++ (minimum ++ rest))).2).2.head? =
        some '.'
    · obtain ⟨behind, hbehind⟩ := List.head?_eq_some_iff.mp hpoint
      have hmax := congrArg List.length (MaximumText.source_append_read behind)
      unfold read
      simp only [hbehind, List.length_cons, List.length_append] at hle hmax ⊢
      omega
    · rw [read_no_point hpoint]
      exact hle
  | some text =>
    rw [source_some, read_point h.minimum]
    unfold MaximumText.read MaximumText.source
    rw [List.append_assoc]
    exact length_readDigits_readDash_le text.keepsHead (h.maximum text rfl) rest

theorem read_isLongest (cs : List Char) : (read cs).1.IsLongest (read cs).2 := by
  refine ⟨read_wellFormed cs, fun other ho hbegins => ?_⟩
  rw [source_append_read] at hbegins
  obtain ⟨behind, hbehind⟩ := hbegins
  have hle := length_read_le ho behind
  rw [hbehind] at hle
  have hlength := congrArg List.length (hbehind.trans (source_append_read cs).symm)
  rw [List.length_append, List.length_append] at hlength
  omega

theorem read_eq_iff : read cs = (m, rest) ↔ m.source ++ rest = cs ∧ m.IsLongest rest := by
  constructor
  · intro h
    have hsource := source_append_read cs
    have hlongest := read_isLongest cs
    rw [h] at hsource hlongest
    exact ⟨hsource, hlongest⟩
  · rintro ⟨rfl, hm⟩
    have hsource := source_append_read (m.source ++ rest)
    have hlongest := read_isLongest (m.source ++ rest)
    -- each of the two is at least as long as the other
    have hle := hm.longest _ hlongest.wellFormed ⟨_, hsource⟩
    have hge := hlongest.longest _ hm.wellFormed (by rw [hsource]; exact List.prefix_append _ _)
    obtain ⟨hsame, hrest⟩ := List.append_inj hsource (Nat.le_antisymm hle hge)
    exact Prod.ext (eq_of_source_eq hlongest.wellFormed hm.wellFormed hsame) hrest

end Modifiers

end LogLayout.Pattern
