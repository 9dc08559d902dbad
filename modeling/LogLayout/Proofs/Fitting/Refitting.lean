import LogLayout.Pattern.Compile
import LogLayout.Proofs.Fitting.Field
import Mathlib

/-!
# Fitting a field again

A field that is fitted once more stays as it is, unless its least width is beyond its greatest and
the spaces go to the very end that is kept of a text that is too long. Then the spaces count as
text, they are kept in place of other characters, and only blanks survive.

Results:
1. `fit_mirrored`: a specifier fits a reversed text as its mirror image fits the text.
2. `fit_fit_eq_iff`: when a fitted text is its own field.
3. `apply_apply_eq_iff`: when fitting in place is done after the first time, and at the end of the
   file a specifier for which it is not.
-/

namespace LogLayout.Fitting

def Side.opposite : Side → Side
  | .head => .tail
  | .tail => .head

def Justification.opposite : Justification → Justification
  | .left => .right
  | .right => .left

namespace Specifier

/-- The specifier that does at the start of a text what the other does at its end. -/
def mirrored (s : Specifier) : Specifier where
  minWidth := s.minWidth
  justification := s.justification.opposite
  limit := s.limit.map fun limit => ⟨limit.width, limit.keep.opposite⟩

/-- The least width is beyond the greatest, and the spaces of a short text go to the end that is
kept of a long one. -/
def PadsKeptEnd (s : Specifier) : Prop :=
  ∃ least ∈ s.minWidth, ∃ limit ∈ s.limit, limit.width < least ∧
    match limit.keep with
    | .head => s.justification = .right
    | .tail => s.justification = .left

/-! ## Mirror images -/

theorem cut_mirrored (s : Specifier) (text : List Char) :
    s.mirrored.cut text.reverse = (s.cut text).reverse := by
  obtain ⟨minWidth, justification, limit⟩ := s
  cases limit with
  | none => rfl
  | some limit =>
    obtain ⟨width, keep⟩ := limit
    cases keep with
    | tail => exact List.take_reverse
    | head =>
      show text.reverse.drop (text.reverse.length - width) = (text.take width).reverse
      rw [List.drop_reverse, List.length_reverse]
      rcases Nat.le_total width text.length with hle | hle
      · rw [Nat.sub_sub_self hle]
      · rw [Nat.sub_eq_zero_of_le hle, Nat.sub_zero, List.take_length, List.take_of_length_le hle]

theorem fill_mirrored (s : Specifier) (text : List Char) :
    s.mirrored.fill text.reverse = (s.fill text).reverse := by
  obtain ⟨minWidth, justification, limit⟩ := s
  cases justification <;>
    simp only [fill, mirrored, Justification.opposite, List.reverse_append, List.length_reverse,
      List.reverse_replicate]

theorem fit_mirrored (s : Specifier) (text : List Char) :
    s.mirrored.fit text.reverse = (s.fit text).reverse := by
  unfold fit
  rw [cut_mirrored, fill_mirrored]

theorem padsKeptEnd_mirrored_iff (s : Specifier) : s.mirrored.PadsKeptEnd ↔ s.PadsKeptEnd := by
  obtain ⟨minWidth, justification, limit⟩ := s
  unfold PadsKeptEnd
  cases limit with
  | none => simp [mirrored]
  | some limit =>
    obtain ⟨width, keep⟩ := limit
    cases keep <;> cases justification <;>
      simp [mirrored, Side.opposite, Justification.opposite]

/-! ## Fields that are fitted again -/

variable {s : Specifier} {text : List Char}

/-- A field that may be as wide as it must be meets both bounds. -/
theorem fit_fit_of_least_le_greatest
    (h : ∀ least ∈ s.minWidth, ∀ greatest ∈ s.maxWidth, least ≤ greatest) :
    s.fit (s.fit text) = s.fit text := by
  have hlength := s.length_fit text
  refine fit_of_meets (fun greatest hgreatest => ?_) (fun least hleast => ?_)
  · rw [hlength, hgreatest, Option.getD_some]
    refine Nat.max_le.mpr ⟨?_, Nat.min_le_left _ _⟩
    cases hmin : s.minWidth with
    | none => exact Nat.zero_le _
    | some least => exact h least hmin greatest hgreatest
  · rw [hlength, hleast, Option.getD_some]
    exact Nat.le_max_left _ _

/-- Spaces behind a head that is kept: the second cut takes some of them away, and as many are put
back. -/
theorem fit_fit_of_keeps_head {least greatest : Nat} (h : greatest < least)
    (hmin : s.minWidth = some least) (hleft : s.justification = .left)
    (hmax : s.limit = some ⟨greatest, .head⟩) : s.fit (s.fit text) = s.fit text := by
  obtain ⟨minWidth, justification, limit⟩ := s
  subst hmin hleft hmax
  simp only [fit, cut, fill, Option.getD_some]
  have hkept : (text.take greatest).length ≤ greatest := List.length_take_le _ text
  generalize text.take greatest = kept at hkept
  rw [List.take_append, List.take_of_length_le hkept, List.take_replicate,
    Nat.min_eq_left (by omega), List.append_assoc, List.length_append, List.length_replicate,
    List.replicate_append_replicate]
  congr 2
  omega

/-- Spaces behind a tail that is kept: the second cut keeps them in place of the characters before.
-/
theorem fit_fit_of_keeps_tail {least greatest : Nat} (h : greatest < least)
    (hmin : s.minWidth = some least) (hleft : s.justification = .left)
    (hmax : s.limit = some ⟨greatest, .tail⟩) :
    s.fit (s.fit text) =
      (s.fit text).drop (least - greatest) ++ List.replicate (least - greatest) ' ' := by
  have hlength : (s.fit text).length = least := by
    rw [s.length_fit text, maxWidth, hmin, hmax]
    show max least (min greatest text.length) = least
    omega
  generalize s.fit text = field at hlength
  obtain ⟨minWidth, justification, limit⟩ := s
  subst hmin hleft hmax
  simp only [fit, cut, fill, Option.getD_some, List.length_drop, hlength]
  rw [Nat.sub_sub_self (Nat.le_of_lt h)]

/-- A list that is the same with characters dropped before it and others added behind it consists of
those that are added. -/
theorem drop_append_replicate_eq_iff {α : Type} {a : α} {moved : Nat} (hmoved : 0 < moved)
    {list : List α} (hle : moved ≤ list.length) :
    list.drop moved ++ List.replicate moved a = list ↔ ∀ b ∈ list, b = a := by
  constructor
  · intro heq
    induction hn : list.length using Nat.strongRecOn generalizing list with
    | _ n ih =>
      have hmovedOn := congrArg (List.drop moved) heq
      have hrest : ∀ b ∈ list.drop moved, b = a := by
        by_cases hmore : moved ≤ (list.drop moved).length
        · rw [List.drop_append_of_le_length hmore] at hmovedOn
          exact ih _ (by rw [List.length_drop]; omega) hmore hmovedOn rfl
        · rw [List.drop_append, List.drop_of_length_le (by omega), List.nil_append,
            List.drop_replicate] at hmovedOn
          intro b hb
          rw [← hmovedOn] at hb
          exact List.eq_of_mem_replicate hb
      intro b hb
      rw [← heq] at hb
      rcases List.mem_append.mp hb with hb | hb
      · exact hrest b hb
      · exact List.eq_of_mem_replicate hb
  · intro hall
    obtain ⟨count, rfl⟩ : ∃ count, list = List.replicate count a :=
      ⟨_, List.eq_replicate_of_mem hall⟩
    rw [List.length_replicate] at hle
    rw [List.drop_replicate, List.replicate_append_replicate, Nat.sub_add_cancel hle]

/-- A field is blank iff what was cut from the text is. -/
theorem forall_mem_fit_iff : (∀ c ∈ s.fit text, c = ' ') ↔ ∀ c ∈ s.cut text, c = ' ' := by
  have hspaces : ∀ c ∈ List.replicate (s.minWidth.getD 0 - (s.cut text).length) ' ', c = ' ' :=
    fun _ hc => List.eq_of_mem_replicate hc
  unfold fit fill
  cases s.justification with
  | left => exact List.forall_mem_append.trans (and_iff_left hspaces)
  | right => exact List.forall_mem_append.trans (and_iff_right hspaces)

theorem least_le_greatest_or_lt (s : Specifier) :
    (∀ least ∈ s.minWidth, ∀ greatest ∈ s.maxWidth, least ≤ greatest) ∨
      ∃ least limit, s.minWidth = some least ∧ s.limit = some limit ∧ limit.width < least := by
  obtain ⟨minWidth, justification, limit⟩ := s
  cases minWidth with
  | none => exact .inl fun _ h => nomatch h
  | some least =>
    cases limit with
    | none => exact .inl fun _ _ _ h => nomatch h
    | some limit =>
      rcases Nat.lt_or_ge limit.width least with hlt | hle
      · exact .inr ⟨least, limit, rfl, rfl, hlt⟩
      · refine .inl fun _ hleast _ hgreatest => ?_
        cases hleast
        cases hgreatest
        exact hle

/-- A text fitted on the left is its own field, unless spaces are kept in place of its characters. -/
theorem fit_fit_eq_iff_of_left (hleft : s.justification = .left) :
    s.fit (s.fit text) = s.fit text ↔ ¬s.PadsKeptEnd ∨ ∀ c ∈ s.cut text, c = ' ' := by
  obtain hwide | ⟨least, ⟨width, keep⟩, hleast, hlimit, hlt⟩ := s.least_le_greatest_or_lt
  · refine iff_of_true (fit_fit_of_least_le_greatest hwide) (.inl ?_)
    rintro ⟨least, hleast, limit, hlimit, hlt, _⟩
    have hgreatest : limit.width ∈ s.maxWidth := Option.map_eq_some_iff.mpr ⟨limit, hlimit, rfl⟩
    exact Nat.not_le_of_lt hlt (hwide least hleast limit.width hgreatest)
  · cases keep with
    | head =>
      refine iff_of_true (fit_fit_of_keeps_head hlt hleast hleft hlimit) (.inl ?_)
      rintro ⟨_, _, limit, hkeep, _, hright⟩
      obtain rfl := Option.some.inj (hlimit.symm.trans hkeep)
      cases hleft.symm.trans hright
    | tail =>
      have hpads : s.PadsKeptEnd := ⟨least, hleast, _, hlimit, hlt, hleft⟩
      have hlength : least - width ≤ (s.fit text).length := by
        rw [s.length_fit text, hleast]
        exact Nat.le_trans (Nat.sub_le _ _) (Nat.le_max_left _ _)
      rw [fit_fit_of_keeps_tail hlt hleast hleft hlimit,
        drop_append_replicate_eq_iff (Nat.sub_pos_of_lt hlt) hlength, forall_mem_fit_iff]
      exact ⟨.inr, fun h => h.resolve_left (not_not_intro hpads)⟩

theorem fit_fit_eq_iff (s : Specifier) (text : List Char) :
    s.fit (s.fit text) = s.fit text ↔ ¬s.PadsKeptEnd ∨ ∀ c ∈ s.cut text, c = ' ' := by
  cases hjustification : s.justification with
  | left => exact fit_fit_eq_iff_of_left hjustification
  | right =>
    have hleft : s.mirrored.justification = .left := by
      rw [mirrored, hjustification]
      rfl
    have hmirror : s.mirrored.fit (s.mirrored.fit text.reverse) = _ ↔ _ :=
      fit_fit_eq_iff_of_left hleft
    rw [fit_mirrored, fit_mirrored, cut_mirrored, List.reverse_inj, padsKeptEnd_mirrored_iff]
      at hmirror
    simpa only [List.mem_reverse] using hmirror

/-- Fitting in place a second time changes nothing iff the specifier does not put its spaces at the
end that it keeps, with a least width beyond the greatest, or what is left of the text is blank. -/
theorem apply_apply_eq_iff (s : Specifier) (before text : String) :
    s.apply before.utf8ByteSize (s.apply before.utf8ByteSize (before ++ text)) =
        s.apply before.utf8ByteSize (before ++ text) ↔
      ¬s.PadsKeptEnd ∨ ∀ c ∈ s.cut text.toList, c = ' ' := by
  rw [apply_append, apply_append, String.toList_ofList, String.append_right_inj, String.ofList_inj,
    fit_fit_eq_iff]

open Pattern in
/-- A specifier that a pattern can have, whose spaces take the place of the text. -/
theorem left_justified_tail_apply_apply_ne :
    ∃ compiled,
      compile (TokenTable.empty.bind ["m"] (.constant .message)) "%-5.3m" = .ok compiled ∧
      compiled.chain.specifiers = [⟨some 5, .left, some ⟨3, .tail⟩⟩] ∧
      (⟨some 5, .left, some ⟨3, .tail⟩⟩ : Specifier).apply 0 "abcdef" = "def  " ∧
      (⟨some 5, .left, some ⟨3, .tail⟩⟩ : Specifier).apply 0 "def  " = "f    " := by
  refine ⟨⟨[⟨.message, ⟨some 5, .left, some ⟨3, .tail⟩⟩⟩], []⟩, ?_, rfl, ?_, ?_⟩
  · cbv
  · decide
  · decide

end Specifier

end LogLayout.Fitting
