import LogLayout.Pattern.Warning
import LogLayout.Proofs.Pattern.Cut

/-!
# What is malformed in a piece

The flaws of a piece are said here by the text in which they stand: which part of it is malformed,
and how much of the piece stands ahead of that part. A piece has at most one flaw of each rank, and
its warnings are its flaws by rank.

Results:
1. `Modifiers.mem_warnings_iff`, `Modifiers.inOrder_warnings`: the warnings of modifiers are their
   flaws, in order.
2. `Modifiers.warnings_eq_nil_iff`: which modifiers have none.
-/

namespace LogLayout.Pattern

variable {α : Type} {ahead : List Char} {problem : Problem}

/-! ## Flaws -/

/-- Of two flaws of a piece, the one with the smaller rank is warned of first. -/
def Problem.rank : Problem → Nat
  | .minimumOutOfRange => 0
  | .maximumOutOfRange | .missingMaximum => 1
  | .unterminatedBlock => 2
  | .danglingPercent | .missingName | .unknownName _ => 3

/-- The text of the modifiers up to the digits of their greatest width. -/
def Modifiers.beforeMaximum (m : Modifiers) (text : MaximumText) : List Char :=
  dashText m.leftJustified ++ m.minimum ++ '.' :: dashText text.keepsHead

/-- A flaw of modifiers, with the text of theirs that stands ahead of it: digits for a number out of
range, or no digit where a point asks for one. -/
inductive Modifiers.Flaw : Modifiers → List Char → Problem → Prop where
  | minimum {m : Modifiers} : widthLimit < Nat.ofDigitChars 10 m.minimum 0 →
    Flaw m (dashText m.leftJustified) .minimumOutOfRange
  | maximum {m : Modifiers} {text : MaximumText} : m.maximum = some text →
    widthLimit < Nat.ofDigitChars 10 text.digits 0 →
    Flaw m (m.beforeMaximum text) .maximumOutOfRange
  | missing {m : Modifiers} {text : MaximumText} : m.maximum = some text → text.digits = [] →
    Flaw m (m.beforeMaximum text) .missingMaximum

namespace Piece

def modifiers? : Piece α → Option Modifiers
  | .nameless m | .unknown m _ _ => some m
  | .directive d => some d.modifiers
  | _ => none

/-- The token of a directive, or the word that has none. -/
def name? : Piece α → Option (List Char)
  | .unknown _ word _ => some word
  | .directive d => some d.token
  | _ => none

/-- A flaw of the piece in front of the rest of a text, with the part of the piece that stands ahead
of it. -/
inductive Flaw : Piece α → List Char → List Char → Problem → Prop where
  | dangling {rest : List Char} : Flaw .dangling rest [] .danglingPercent
  | nameless {m : Modifiers} {rest : List Char} : Flaw (.nameless m) rest [] .missingName
  | unknown {m : Modifiers} {word rest : List Char} {options : OptionPart} :
    Flaw (.unknown m word options) rest [] (.unknownName word)
  | modifiers {piece : Piece α} {m : Modifiers} {ahead rest : List Char} {problem : Problem} :
    piece.modifiers? = some m → m.Flaw ahead problem → Flaw piece rest ('%' :: ahead) problem
  | block {piece : Piece α} {m : Modifiers} {name rest more : List Char} :
    piece.modifiers? = some m → piece.name? = some name →
    piece.source ++ rest = '%' :: (m.source ++ name ++ '{' :: more) → ¬HasClosingBrace more →
    Flaw piece rest ('%' :: (m.source ++ name)) .unterminatedBlock

end Piece

/-- The modifiers have widths that are honoured, and one behind each point. -/
def Modifiers.InRange (m : Modifiers) : Prop :=
  Nat.ofDigitChars 10 m.minimum 0 ≤ widthLimit ∧
    ∀ text ∈ m.maximum, text.digits ≠ [] ∧ Nat.ofDigitChars 10 text.digits 0 ≤ widthLimit

/-- The piece is a character, an escape, or a directive with widths in range and no open block. -/
def Piece.IsClean : Piece α → Prop
  | .plain _ | .percent => True
  | .directive d => d.modifiers.InRange ∧ d.options ≠ .unterminated
  | _ => False

/-- The warnings are in the order of the ranks of their flaws, of which no two are the same. -/
def InOrder (warnings : List Warning) : Prop :=
  warnings.Pairwise fun v w => v.problem.rank < w.problem.rank

/-! ## Warnings of modifiers -/

theorem ne_nil_of_widthLimit_lt {digits : List Char}
    (h : widthLimit < Nat.ofDigitChars 10 digits 0) : digits ≠ [] := by
  rintro rfl
  exact absurd h (by decide)

theorem width?_eq_none_iff {digits : List Char} (hne : digits ≠ []) (h : ∀ c ∈ digits, c.isDigit) :
    width? digits = none ↔ widthLimit < Nat.ofDigitChars 10 digits 0 := by
  rw [Option.eq_none_iff_forall_ne_some, ← Nat.not_le]
  constructor
  · intro hnone hwidth
    exact hnone _ ((width?_eq_some_iff h).mpr ⟨hne, rfl, hwidth⟩)
  · intro hlarge width hwidth
    obtain ⟨_, rfl, hsmall⟩ := (width?_eq_some_iff h).mp hwidth
    exact hlarge hsmall

section Membership

variable {w : Warning} {offset : Nat}

theorem Warning.mem_singleton_iff :
    w ∈ [⟨offset, problem⟩] ↔ w.problem = problem ∧ w.offset = offset := by
  rw [List.mem_singleton]
  constructor
  · rintro rfl
    exact ⟨rfl, rfl⟩
  · rintro ⟨rfl, rfl⟩
    rfl

theorem Warning.mem_ite_iff {c : Prop} [Decidable c] :
    w ∈ (if c then [⟨offset, problem⟩] else []) ↔
      c ∧ w.problem = problem ∧ w.offset = offset := by
  split
  · rename_i hc
    rw [mem_singleton_iff]
    exact ⟨fun hw => ⟨hc, hw⟩, And.right⟩
  · rename_i hc
    exact ⟨fun hw => absurd hw List.not_mem_nil, fun hw => absurd hw.1 hc⟩

theorem MaximumText.mem_warnings_iff {text : MaximumText} (h : ∀ c ∈ text.digits, c.isDigit) :
    w ∈ text.warnings offset ↔
      (text.digits = [] ∧ w.problem = .missingMaximum ∨
        widthLimit < Nat.ofDigitChars 10 text.digits 0 ∧ w.problem = .maximumOutOfRange) ∧
      w.offset = offset + Text.byteLength (dashText text.keepsHead) := by
  unfold warnings
  dsimp only
  by_cases hne : text.digits = []
  · rw [if_pos hne, Warning.mem_singleton_iff]
    constructor
    · exact fun ⟨hproblem, hoffset⟩ => ⟨.inl ⟨hne, hproblem⟩, hoffset⟩
    · rintro ⟨⟨_, hproblem⟩ | ⟨hlarge, _⟩, hoffset⟩
      · exact ⟨hproblem, hoffset⟩
      · exact absurd hne (ne_nil_of_widthLimit_lt hlarge)
  · rw [if_neg hne, Warning.mem_ite_iff, width?_eq_none_iff hne h]
    constructor
    · exact fun ⟨hlarge, hproblem, hoffset⟩ => ⟨.inr ⟨hlarge, hproblem⟩, hoffset⟩
    · rintro ⟨⟨hnil, _⟩ | ⟨hlarge, hproblem⟩, hoffset⟩
      · exact absurd hnil hne
      · exact ⟨hlarge, hproblem, hoffset⟩

theorem MaximumText.rank_of_mem_warnings {text : MaximumText} (hw : w ∈ text.warnings offset) :
    w.problem.rank = 1 := by
  unfold warnings at hw
  dsimp only at hw
  split at hw
  · rw [(Warning.mem_singleton_iff.mp hw).1]
    rfl
  · rw [(Warning.mem_ite_iff.mp hw).2.1]
    rfl

namespace Modifiers

variable {m : Modifiers}

theorem rank_le_of_mem_warnings (hw : w ∈ m.warnings offset) : w.problem.rank ≤ 1 := by
  rcases List.mem_append.mp hw with hw | hw
  · rw [(Warning.mem_ite_iff.mp hw).2.1]
    decide
  · cases hm : m.maximum with
    | none =>
      rw [hm] at hw
      cases hw
    | some text =>
      rw [hm] at hw
      exact Nat.le_of_eq (MaximumText.rank_of_mem_warnings hw)

theorem minimum_outOfRange_iff (h : m.WellFormed) :
    m.minimum ≠ [] ∧ width? m.minimum = none ↔
      widthLimit < Nat.ofDigitChars 10 m.minimum 0 := by
  constructor
  · rintro ⟨hne, hnone⟩
    exact (width?_eq_none_iff hne h.minimum).mp hnone
  · intro hlarge
    have hne := ne_nil_of_widthLimit_lt hlarge
    exact ⟨hne, (width?_eq_none_iff hne h.minimum).mpr hlarge⟩

theorem byteLength_beforeMaximum (m : Modifiers) (text : MaximumText) :
    Text.byteLength (m.beforeMaximum text) =
      Text.byteLength (dashText m.leftJustified) + Text.byteLength m.minimum + 1 +
        Text.byteLength (dashText text.keepsHead) := by
  unfold beforeMaximum
  simp only [Text.byteLength_append, Text.byteLength_cons, Nat.add_assoc]
  rfl

theorem mem_warnings_iff (h : m.WellFormed) :
    w ∈ m.warnings offset ↔
      ∃ ahead, m.Flaw ahead w.problem ∧ w.offset = offset + Text.byteLength ahead := by
  obtain ⟨position, problem⟩ := w
  have hposition : ∀ text, offset + Text.byteLength (m.beforeMaximum text) =
      offset + Text.byteLength (dashText m.leftJustified) + Text.byteLength m.minimum + 1 +
        Text.byteLength (dashText text.keepsHead) := by
    intro text
    rw [byteLength_beforeMaximum]
    simp only [Nat.add_assoc]
  unfold warnings
  dsimp only
  rw [List.mem_append, Warning.mem_ite_iff, minimum_outOfRange_iff h]
  constructor
  · rintro (⟨hlarge, rfl, rfl⟩ | hmax)
    · exact ⟨_, .minimum hlarge, rfl⟩
    · cases hm : m.maximum with
      | none =>
        rw [hm] at hmax
        cases hmax
      | some text =>
        rw [hm] at hmax
        obtain ⟨⟨hnil, rfl⟩ | ⟨hlarge, rfl⟩, rfl⟩ :=
          (MaximumText.mem_warnings_iff (h.maximum text hm)).mp hmax
        · exact ⟨_, .missing hm hnil, (hposition text).symm⟩
        · exact ⟨_, .maximum hm hlarge, (hposition text).symm⟩
  · rintro ⟨ahead, hflaw, rfl⟩
    cases hflaw with
    | minimum hlarge => exact .inl ⟨hlarge, rfl, rfl⟩
    | @maximum text hm hlarge =>
      rw [hm]
      exact .inr ((MaximumText.mem_warnings_iff (h.maximum text hm)).mpr
        ⟨.inr ⟨hlarge, rfl⟩, hposition text⟩)
    | @missing text hm hnil =>
      rw [hm]
      exact .inr ((MaximumText.mem_warnings_iff (h.maximum text hm)).mpr
        ⟨.inl ⟨hnil, rfl⟩, hposition text⟩)

theorem Flaw.rank_le (h : m.Flaw ahead problem) : problem.rank ≤ 1 := by
  cases h <;> decide

theorem Flaw.ahead_begins (h : m.Flaw ahead problem) : ahead <+: m.source := by
  have hpoint : ∀ text, m.maximum = some text → m.beforeMaximum text <+: m.source := by
    intro text hm
    refine ⟨text.digits, ?_⟩
    simp only [beforeMaximum, source, maximumSource, hm, MaximumText.source, List.append_assoc,
      List.cons_append]
  cases h with
  | minimum _ => exact ⟨m.minimum ++ m.maximumSource, (List.append_assoc _ _ _).symm⟩
  | maximum hm _ => exact hpoint _ hm
  | missing hm _ => exact hpoint _ hm

theorem inOrder_warnings (m : Modifiers) (offset : Nat) : InOrder (m.warnings offset) := by
  have hsingle : ∀ w : Warning, InOrder [w] := List.pairwise_singleton _
  have hmaximum : ∀ (text : MaximumText) (offset : Nat), InOrder (text.warnings offset) := by
    intro text offset
    unfold MaximumText.warnings
    dsimp only
    split
    · exact hsingle _
    · split
      · exact hsingle _
      · exact .nil
  unfold warnings
  dsimp only
  refine List.pairwise_append.mpr ⟨?_, ?_, fun v hv w hw => ?_⟩
  · split
    · exact hsingle _
    · exact .nil
  · cases m.maximum with
    | none => exact .nil
    | some text => exact hmaximum text _
  · obtain ⟨_, hfirst, _⟩ := Warning.mem_ite_iff.mp hv
    cases hm : m.maximum with
    | none =>
      rw [hm] at hw
      cases hw
    | some text =>
      rw [hm] at hw
      rw [hfirst, MaximumText.rank_of_mem_warnings hw]
      exact Nat.zero_lt_one

theorem warnings_eq_nil_iff (h : m.WellFormed) : m.warnings offset = [] ↔ m.InRange := by
  rw [List.eq_nil_iff_forall_not_mem]
  simp only [mem_warnings_iff h]
  constructor
  · intro hempty
    have hnone : ∀ ahead problem, ¬m.Flaw ahead problem := fun ahead problem hflaw =>
      hempty ⟨offset + Text.byteLength ahead, problem⟩ ⟨ahead, hflaw, rfl⟩
    refine ⟨Nat.le_of_not_lt fun hlarge => hnone _ _ (.minimum hlarge), fun text hm => ?_⟩
    exact ⟨fun hnil => hnone _ _ (.missing hm hnil),
      Nat.le_of_not_lt fun hlarge => hnone _ _ (.maximum hm hlarge)⟩
  · rintro ⟨hminimum, hmaximum⟩ w ⟨ahead, hflaw, _⟩
    generalize w.problem = problem at hflaw
    cases hflaw with
    | minimum hlarge => exact absurd hlarge (Nat.not_lt.mpr hminimum)
    | maximum hm hlarge => exact absurd hlarge (Nat.not_lt.mpr (hmaximum _ hm).2)
    | missing hm hnil => exact (hmaximum _ hm).1 hnil

end Modifiers

end Membership

end LogLayout.Pattern
