import LogLayout.Bundled
import LogLayout.Proofs.Chain.Fields

/-!
# The widths that a pattern asks for

The digits of a width are read as the number that they denote, however many there are, and a number
out of range is no width. So a pattern can make a field longer than the text of its converter only
up to the greatest width that is honoured.

Results:
1. `denotes_iff`: digits that denote a number.
2. `asksFor_read`: what the text behind a percent sign asks for is what its specifier is.
3. `Piece.Stands.withModifiers`: other modifiers leave the directive behind them as it is.
4. `Chain.length_formatInto_le`: how long a rendering can be.
-/

namespace LogLayout

open Fitting (Specifier)
open Palette (Terminal)

namespace Pattern

variable {α : Type} {table : TokenTable α} {digits rest text : List Char} {value width : Nat}

/-! ## Digits -/

/-- The digits are those of the number in decimal, perhaps behind zeros. -/
def Denotes (digits : List Char) (value : Nat) : Prop :=
  ∃ zeros, digits = List.replicate zeros '0' ++ Nat.toDigits 10 value

theorem exists_digitChar {c : Char} (h : c.isDigit) : ∃ n < 10, n.digitChar = c := by
  obtain ⟨hzero, hnine⟩ := Char.isDigit_iff_toNat.mp h
  have hlt : c.toNat - '0'.toNat < 10 := Nat.lt_succ_of_le (Nat.sub_le_iff_le_add.mpr hnine)
  refine ⟨c.toNat - '0'.toNat, hlt, ?_⟩
  rw [← Char.toNat_inj, Nat.toNat_digitChar_of_lt_ten hlt]
  exact Nat.add_sub_cancel' hzero

/-- Digits behind those of a number that is not zero are the last digits of another one. -/
theorem toDigits_ofDigitChars (h : ∀ c ∈ digits, c.isDigit) (hvalue : 0 < value) :
    Nat.toDigits 10 (Nat.ofDigitChars 10 digits value) = Nat.toDigits 10 value ++ digits := by
  induction digits generalizing value with
  | nil => rw [Nat.ofDigitChars_nil, List.append_nil]
  | cons c digits ih =>
    obtain ⟨hc, hdigits⟩ := List.forall_mem_cons.mp h
    obtain ⟨n, hn, rfl⟩ := exists_digitChar hc
    have hnext : 0 < 10 * value + n :=
      Nat.lt_of_lt_of_le (Nat.mul_pos (by decide) hvalue) (Nat.le_add_right _ n)
    rw [Nat.ofDigitChars_cons_digitChar_of_lt_ten hn, ih hdigits hnext,
      ← Nat.toDigits_append_toDigits (by decide) hvalue hn, Nat.toDigits_of_lt_base hn,
      List.append_assoc, List.singleton_append]

theorem denotes_ofDigitChars (hne : digits ≠ []) (h : ∀ c ∈ digits, c.isDigit) :
    Denotes digits (Nat.ofDigitChars 10 digits 0) := by
  induction digits with
  | nil => exact absurd rfl hne
  | cons c digits ih =>
    obtain ⟨hc, hdigits⟩ := List.forall_mem_cons.mp h
    obtain ⟨n, hn, rfl⟩ := exists_digitChar hc
    rw [Nat.ofDigitChars_cons_digitChar_of_lt_ten hn, Nat.mul_zero, Nat.zero_add]
    rcases Nat.eq_zero_or_pos n with rfl | hpos
    · -- a zero at the front, which is the number itself or stands before it
      rcases eq_or_ne digits [] with rfl | hmore
      · exact ⟨0, rfl⟩
      · obtain ⟨zeros, hdenotes⟩ := ih hmore hdigits
        refine ⟨zeros + 1, ?_⟩
        rw [List.replicate_succ, List.cons_append, ← hdenotes]
        rfl
    · refine ⟨0, ?_⟩
      rw [toDigits_ofDigitChars hdigits hpos, Nat.toDigits_of_lt_base hn]
      rfl

theorem denotes_iff (h : ∀ c ∈ digits, c.isDigit) :
    Denotes digits value ↔ digits ≠ [] ∧ Nat.ofDigitChars 10 digits 0 = value := by
  constructor
  · rintro ⟨zeros, rfl⟩
    refine ⟨fun hnil => Nat.toDigits_ne_nil (List.append_eq_nil_iff.mp hnil).2, ?_⟩
    rw [Nat.ofDigitChars_append, Nat.ofDigitChars_replicate_zero, Nat.mul_zero,
      Nat.ofDigitChars_ten_toDigits]
  · rintro ⟨hne, rfl⟩
    exact denotes_ofDigitChars hne h

/-! ## What the text behind a percent sign asks for -/

/-- The text begins with a sign, if one is claimed, and otherwise not; then come digits, as many as
there are. -/
structure BeginsSigned (text : List Char) (signed : Bool) (digits rest : List Char) : Prop where
  split : text = dashText signed ++ (digits ++ rest)
  sign : signed = true ↔ text.head? = some '-'
  run : IsRun Char.isDigit digits rest

/-- The width is the number that the digits denote, and there is none unless it is honoured. -/
def IsWidth (digits : List Char) (width : Option Nat) : Prop :=
  ∀ value, width = some value ↔ Denotes digits value ∧ value ≤ widthLimit

/-- What a text asks for by the sign and the digits that it begins with, and behind a point by
another sign and other digits. -/
inductive AsksFor : List Char → Specifier → Prop where
  | minimum {text digits rest : List Char} {signed : Bool} {s : Specifier} :
    BeginsSigned text signed digits rest → rest.head? ≠ some '.' →
    (s.justification = .left ↔ signed = true) → IsWidth digits s.minWidth →
    s.maxWidth = none → s.cutsStart = false → AsksFor text s
  | maximum {text digits behind more rest : List Char} {signed keepsHead : Bool} {s : Specifier} :
    BeginsSigned text signed digits ('.' :: behind) → BeginsSigned behind keepsHead more rest →
    (s.justification = .left ↔ signed = true) → IsWidth digits s.minWidth →
    IsWidth more s.maxWidth → (s.cutsStart = true ↔ s.maxWidth ≠ none ∧ keepsHead = false) →
    AsksFor text s

theorem beginsSigned_read (text : List Char) :
    BeginsSigned text (readDash text).1 (readDigits (readDash text).2).1
      (readDigits (readDash text).2).2 := by
  refine ⟨?_, ?_, isRun_takeWhile Char.isDigit _⟩
  · rw [readDigits_append, dashText_append_readDash]
  · unfold readDash
    split
    · exact iff_of_true rfl rfl
    · rename_i hhead
      refine iff_of_false Bool.false_ne_true fun hdash => ?_
      obtain ⟨rest, hrest⟩ := List.head?_eq_some_iff.mp hdash
      exact hhead rest hrest

theorem isWidth_width? (h : ∀ c ∈ digits, c.isDigit) : IsWidth digits (width? digits) := by
  intro value
  rw [width?_eq_some_iff h, denotes_iff h, and_assoc]

namespace MaximumText

variable {m : MaximumText}

theorem map_width_limit? : m.limit?.map Fitting.Limit.width = width? m.digits := by
  unfold limit?
  cases width? m.digits <;> rfl

/-- A long text is cut at its start iff there is a greatest width that comes without a sign. -/
theorem any_keep_limit? :
    (m.limit?.any fun limit => limit.keep == .tail) = true ↔
      m.limit?.map Fitting.Limit.width ≠ none ∧ m.keepsHead = false := by
  rw [map_width_limit?]
  unfold limit?
  cases width? m.digits with
  | none => exact iff_of_false Bool.false_ne_true fun h => h.1 rfl
  | some width =>
    cases m.keepsHead with
    | false => exact iff_of_true rfl ⟨Option.some_ne_none width, rfl⟩
    | true => exact iff_of_false Bool.false_ne_true fun h => Bool.noConfusion h.2

end MaximumText

/-- What is read as the modifiers of a directive is what the text behind its percent sign asks
for. -/
theorem asksFor_read (text : List Char) : AsksFor text (Modifiers.read text).1.specifier := by
  have hleft : ∀ signed : Bool,
      (if signed then Fitting.Justification.left else .right) = .left ↔ signed = true := by decide
  have hmin := beginsSigned_read text
  have hminWidth := isWidth_width? hmin.run.all
  by_cases hpoint : (readDigits (readDash text).2).2.head? = some '.'
  · obtain ⟨behind, hbehind⟩ := List.head?_eq_some_iff.mp hpoint
    have hread : (Modifiers.read text).1 = ⟨(readDash text).1, (readDigits (readDash text).2).1,
        some (MaximumText.read behind).1⟩ := by
      unfold Modifiers.read
      simp only [hbehind]
    have hmax := beginsSigned_read behind
    have hmaxWidth : IsWidth (readDigits (readDash behind).2).1
        ((MaximumText.read behind).1.limit?.map Fitting.Limit.width) := by
      rw [MaximumText.map_width_limit?]
      exact isWidth_width? hmax.run.all
    rw [hbehind] at hmin
    rw [hread]
    exact .maximum hmin hmax (hleft _) hminWidth hmaxWidth MaximumText.any_keep_limit?
  · rw [Modifiers.read_no_point hpoint]
    exact .minimum hmin hpoint (hleft _) hminWidth rfl rfl

/-! ## The directive behind modifiers -/

theorem Piece.Stands.asksFor {d : Directive α} (h : (Piece.directive d).Stands table rest) :
    ∃ behind, (Piece.directive d).source ++ rest = '%' :: behind ∧
      AsksFor behind d.modifiers.specifier := by
  cases h with
  | directive hlongest =>
    refine ⟨d.modifiers.source ++ (d.token ++ (d.options.source ++ rest)), ?_, ?_⟩
    · simp only [Piece.source, Directive.source, List.cons_append, List.append_assoc]
    · have hasks := asksFor_read (d.modifiers.source ++ (d.token ++ (d.options.source ++ rest)))
      rwa [Modifiers.read_eq_iff.mpr ⟨rfl, hlongest⟩] at hasks

/-- Whatever modifiers stand before it, the same directive is read with the same options. -/
theorem Piece.Stands.withModifiers {d : Directive α} {m : Modifiers}
    (h : (Piece.directive d).Stands table rest) (hm : m.WellFormed) :
    (Piece.directive { d with modifiers := m }).Stands table rest := by
  cases h with
  | directive _ hbehind hword hmatch hoptions =>
    have hletters := fun c hc => hword.all c (List.mem_append_left _ hc)
    have hstops := stopsModifiers_of_isAlpha hmatch.ne_nil hletters (d.options.source ++ rest)
    have hlongest := (Modifiers.read_eq_iff.mp (Modifiers.read_append hm hstops)).2
    exact .directive hlongest hbehind hword hmatch hoptions

theorem width?_le (h : width? digits = some width) : width ≤ widthLimit := by
  unfold width? at h
  split at h
  · cases h
  · exact of_decide_eq_true (Option.filter_eq_some_iff.mp h).2

theorem Modifiers.minWidth_le {m : Modifiers} :
    ∀ width ∈ m.specifier.minWidth, width ≤ widthLimit :=
  fun _ hwidth => width?_le hwidth

/-- No pattern asks for a width beyond the greatest one that is honoured. -/
theorem Assembled.minWidth_le {pieces : List (Piece Factory)} {chain : Chain}
    (h : Assembled pieces chain) :
    ∀ link ∈ chain, ∀ width ∈ link.specifier.minWidth, width ≤ widthLimit := by
  induction h with
  | nil => exact fun link hlink => absurd hlink List.not_mem_nil
  | directive _ _ ih => exact List.forall_mem_cons.mpr ⟨Modifiers.minWidth_le, ih⟩
  | literal _ _ _ _ ih => exact List.forall_mem_cons.mpr ⟨fun _ hwidth => (nomatch hwidth), ih⟩

end Pattern

/-! ## How long a rendering can be -/

open Pattern (widthLimit)

theorem Fitting.Specifier.length_fit_le {s : Specifier}
    (h : ∀ width ∈ s.minWidth, width ≤ widthLimit) (text : List Char) :
    (s.fit text).length ≤ max widthLimit text.length := by
  have hmin : s.minWidth.getD 0 ≤ widthLimit := by
    cases hwidth : s.minWidth with
    | none => exact Nat.zero_le _
    | some width => exact h width hwidth
  rw [length_fit]
  exact max_le_max hmin (Nat.min_le_right _ _)

section

variable [Libraries]

/-- The converter adds to the text so far. What it adds may depend on that text. -/
def Converter.OnlyAppends (converter : Converter) : Prop :=
  ∀ (terminal : Terminal) (r : Record) (buffer : String),
    ∃ text, converter.write terminal r buffer = buffer ++ text

theorem Converter.IsAdditive.onlyAppends {converter : Converter} (h : converter.IsAdditive) :
    converter.OnlyAppends :=
  fun terminal r buffer => ⟨_, h terminal r buffer⟩

/-- How many characters the converter of the link adds to a text. -/
def Link.ownLength (terminal : Terminal) (r : Record) (buffer : String) (link : Link) : Nat :=
  (link.converter.write terminal r buffer).length - buffer.length

/-- How many characters the field of a link may take: as many as the greatest width, or more if its
converter adds more. -/
def Link.room (terminal : Terminal) (r : Record) (buffer : String) (link : Link) : Nat :=
  max widthLimit (link.ownLength terminal r buffer)

/-- The room of all links, each at its turn in a rendering behind a text. -/
def Chain.room (terminal : Terminal) (r : Record) : String → Chain → Nat
  | _, [] => 0
  | buffer, link :: chain =>
    link.room terminal r buffer + Chain.room terminal r (link.write terminal r buffer) chain

variable {terminal : Terminal} {r : Record}

theorem Link.length_write_le {link : Link} (hlink : link.converter.OnlyAppends)
    (h : ∀ width ∈ link.specifier.minWidth, width ≤ widthLimit) (buffer : String) :
    (link.write terminal r buffer).length ≤ buffer.length + link.room terminal r buffer := by
  obtain ⟨text, htext⟩ := hlink terminal r buffer
  have hfit := Specifier.length_fit_le h text.toList
  have hown : link.ownLength terminal r buffer = text.length := by
    unfold ownLength
    rw [htext, String.length_append, Nat.add_sub_cancel_left]
  unfold write room
  rw [htext, Specifier.apply_append, String.length_append, String.length_ofList, hown]
  exact Nat.add_le_add_left hfit buffer.length

theorem Chain.length_formatInto_le {chain : Chain}
    (hchain : ∀ link ∈ chain, link.converter.OnlyAppends)
    (h : ∀ link ∈ chain, ∀ width ∈ link.specifier.minWidth, width ≤ widthLimit)
    (buffer : String) :
    (chain.formatInto terminal r buffer).length ≤
      buffer.length + Chain.room terminal r buffer chain := by
  unfold formatInto
  induction chain generalizing buffer with
  | nil => exact Nat.le_refl _
  | cons link chain ih =>
    obtain ⟨hfirst, hrest⟩ := List.forall_mem_cons.mp hchain
    obtain ⟨hwidth, hwidths⟩ := List.forall_mem_cons.mp h
    rw [List.foldl_cons, room, ← Nat.add_assoc]
    exact Nat.le_trans (ih hrest hwidths _)
      (Nat.add_le_add_right (Link.length_write_le hfirst hwidth buffer) _)

/-- What an additive converter adds is its text alone, whatever its turn is. -/
theorem Chain.room_eq {chain : Chain} (h : ∀ link ∈ chain, link.converter.IsAdditive)
    (buffer : String) :
    Chain.room terminal r buffer chain =
      ((chain.parts terminal r).map fun part => max widthLimit part.length).sum := by
  induction chain generalizing buffer with
  | nil => rfl
  | cons link chain ih =>
    obtain ⟨hlink, hchain⟩ := List.forall_mem_cons.mp h
    rw [room, ih hchain, Link.room, Link.ownLength, hlink terminal r buffer, String.length_append,
      Nat.add_sub_cancel_left]
    rfl

end

namespace Pattern

/-- Widths are the numbers that their digits denote, and bounded. If a pattern compiles, the
specifier of each of its directives is what the text behind the percent sign asks for, and with any
other modifiers in place of these the same directive is read there. A field is not longer than the
greatest width, or than what its converter adds if that is more, and a rendering not longer than all
its fields may be. -/
theorem widths_denoted_and_bounded [Libraries] {table : TokenTable Factory} {pattern : String}
    {compiled : Compiled} (h : compile table pattern = .ok compiled) :
    ∃ pieces, Cut table pattern.toList pieces ∧ Assembled pieces compiled.chain ∧
      (∀ before d after, pieces = before ++ .directive d :: after →
        (∃ behind, pattern.toList = before.flatMap Piece.source ++ '%' :: behind ∧
          AsksFor behind d.modifiers.specifier) ∧
        ∀ m : Modifiers, m.WellFormed →
          Cut table ('%' :: (m.source ++ d.token ++ d.options.source) ++
            after.flatMap Piece.source) (.directive { d with modifiers := m } :: after)) ∧
      (∀ link ∈ compiled.chain, link.converter.OnlyAppends → ∀ terminal r buffer,
        (link.write terminal r buffer).length ≤
          buffer.length + max 65535 (link.ownLength terminal r buffer)) ∧
      ∀ terminal r, (∀ link ∈ compiled.chain, link.converter.OnlyAppends) →
        (compiled.chain.format terminal r).length ≤ Chain.room terminal r "" compiled.chain ∧
        ((∀ link ∈ compiled.chain, link.converter.IsAdditive) →
          Chain.room terminal r "" compiled.chain =
            ((compiled.chain.parts terminal r).map fun part => max 65535 part.length).sum) := by
  obtain ⟨pieces, hcut, hassembled, _⟩ := compile_eq_ok_iff.mp h
  have hwidths := hassembled.minWidth_le
  refine ⟨pieces, hcut, hassembled, fun before d after hpieces => ?_,
    fun link hlink hconverter terminal r buffer => ?_, fun terminal r hconverters => ⟨?_, ?_⟩⟩
  · subst hpieces
    obtain ⟨hstands, hafter⟩ := hcut.of_append.stands
    obtain ⟨behind, hbehind, hasks⟩ := hstands.asksFor
    refine ⟨⟨behind, ?_, hasks⟩, fun m hm => .cons (hstands.withModifiers hm) hafter⟩
    rw [← hbehind, ← hcut.source, List.flatMap_append, List.flatMap_cons]
  · exact Link.length_write_le hconverter (hwidths link hlink) buffer
  · have hformat : (compiled.chain.format terminal r).length ≤
        "".length + Chain.room terminal r "" compiled.chain :=
      Chain.length_formatInto_le hconverters hwidths ""
    rwa [String.length_empty, Nat.zero_add] at hformat
  · exact fun hadditive => Chain.room_eq hadditive ""

/-- A width behind zeros, a greatest width of more than 64 bits, and the greatest one that is
honoured. -/
theorem message_widths_denoted_and_bounded :
    ∃ pieces, Cut (TokenTable.empty.bind ["m"] (.constant .message))
        "%-007.-18446744073709551617m|%.65535m".toList pieces ∧
      Assembled pieces
        [⟨.message, { minWidth := some 7, justification := .left }⟩, ⟨.literal "|", {}⟩,
          ⟨.message, { limit := some ⟨65535, .tail⟩ }⟩] ∧
      ∀ terminal r,
        (Chain.format [⟨.message, { minWidth := some 7, justification := .left }⟩,
          ⟨.literal "|", {}⟩, ⟨.message, { limit := some ⟨65535, .tail⟩ }⟩] terminal r).length ≤
        max 65535 r.message.length + (65535 + max 65535 r.message.length) := by
  have hcompile : compile (TokenTable.empty.bind ["m"] (.constant .message))
      "%-007.-18446744073709551617m|%.65535m" =
        .ok ⟨[⟨.message, { minWidth := some 7, justification := .left }⟩, ⟨.literal "|", {}⟩,
          ⟨.message, { limit := some ⟨65535, .tail⟩ }⟩], [⟨7, .maximumOutOfRange⟩]⟩ := by
    rw [compile_eq]
    cbv
  obtain ⟨pieces, hcut, hassembled, _, _, hlength⟩ := widths_denoted_and_bounded hcompile
  have hadditive : ∀ link ∈ [(⟨.message, { minWidth := some 7, justification := .left }⟩ : Link),
      ⟨.literal "|", {}⟩, ⟨.message, { limit := some ⟨65535, .tail⟩ }⟩],
      link.converter.IsAdditive := by
    simp only [List.forall_mem_cons]
    exact ⟨Converter.IsBuiltIn.isAdditive trivial, Converter.IsBuiltIn.isAdditive trivial,
      Converter.IsBuiltIn.isAdditive trivial, fun link hlink => absurd hlink List.not_mem_nil⟩
  refine ⟨pieces, hcut, hassembled, fun terminal r => ?_⟩
  obtain ⟨hformat, hroom⟩ := hlength terminal r fun link hlink => (hadditive link hlink).onlyAppends
  rw [hroom hadditive] at hformat
  refine Nat.le_trans hformat (Nat.le_of_eq ?_)
  have hliteral : max 65535 "|".length = 65535 := by decide
  show max 65535 ("" ++ r.message).length +
    (max 65535 ("" ++ "|").length + (max 65535 ("" ++ r.message).length + 0)) = _
  rw [String.empty_append, String.empty_append, Nat.add_zero, hliteral]

end Pattern

end LogLayout
