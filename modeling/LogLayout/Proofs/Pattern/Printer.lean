import LogLayout.Pattern.Warning
import LogLayout.Proofs.Pattern.Modifiers
import LogLayout.Proofs.Pattern.OptionBlock

/-!
# Printing patterns

A pattern is printed from literals and directives. In a literal every `%` is doubled; in an option
a backslash stands before every backslash, comma and closing brace. A directive always has braces,
so that no letter behind it can be taken for a part of its name.

Results:
1. `source_ofSpecifier`, `specifier_ofSpecifier`: the text that a specifier is printed as is one of
   modifiers, which stand for that specifier if its widths are in range.
2. `source_ofOptions`, `options_ofOptions`: the text that options are printed as is a block, whose
   options these are unless they are a single empty one.
-/

namespace LogLayout.Pattern

open LogLayout.Fitting (Specifier)

/-- What a pattern is printed from. -/
inductive Entry where
  | literal (text : String)
  | directive (token : String) (specifier : Specifier) (options : List String)
  deriving DecidableEq, Repr

def printLiteral (text : String) : List Char :=
  text.toList.flatMap fun c => if c = '%' then ['%', '%'] else [c]

def printSpecifier (s : Specifier) : List Char :=
  (if s.justification = .left then ['-'] else []) ++
    (match s.minWidth with
      | none => []
      | some width => Nat.toDigits 10 width) ++
    match s.limit with
    | none => []
    | some limit =>
      '.' :: ((if limit.keep = .tail then [] else ['-']) ++ Nat.toDigits 10 limit.width)

def printOption (option : String) : List Char :=
  option.toList.flatMap fun c => if c = '\\' ∨ c = ',' ∨ c = '}' then ['\\', c] else [c]

def printOptions (options : List String) : List Char :=
  '{' :: ([','].intercalate (options.map printOption) ++ ['}'])

def Entry.print : Entry → List Char
  | .literal text => printLiteral text
  | .directive token specifier options =>
    '%' :: (printSpecifier specifier ++ token.toList ++ printOptions options)

/-- The pattern of entries in order. -/
def printPattern (entries : List Entry) : String :=
  String.ofList (entries.flatMap Entry.print)

/-! ## Specifiers as modifiers -/

namespace Modifiers

/-- The modifiers that a specifier is printed as. -/
def ofSpecifier (s : Specifier) : Modifiers where
  leftJustified := s.justification = .left
  minimum := (s.minWidth.map (Nat.toDigits 10)).getD []
  maximum := s.limit.map fun limit => ⟨limit.keep ≠ .tail, Nat.toDigits 10 limit.width⟩

theorem isDigit_toDigits (width : Nat) : ∀ c ∈ Nat.toDigits 10 width, c.isDigit :=
  fun _ hc => Nat.isDigit_of_mem_toDigits (by decide) (by decide) hc

theorem width?_toDigits {width : Nat} (h : width ≤ widthLimit) :
    width? (Nat.toDigits 10 width) = some width :=
  (width?_eq_some_iff (isDigit_toDigits width)).mpr
    ⟨Nat.toDigits_ne_nil, Nat.ofDigitChars_ten_toDigits, h⟩

theorem source_ofSpecifier (s : Specifier) : (ofSpecifier s).source = printSpecifier s := by
  obtain ⟨minWidth, justification, limit⟩ := s
  unfold source maximumSource printSpecifier
  cases limit with
  | none => cases justification <;> cases minWidth <;> rfl
  | some limit =>
    obtain ⟨width, keep⟩ := limit
    cases justification <;> cases minWidth <;> cases keep <;> rfl

theorem wellFormed_ofSpecifier (s : Specifier) : (ofSpecifier s).WellFormed := by
  refine ⟨?_, fun text htext => ?_⟩
  · cases hmin : s.minWidth with
    | none => simp only [ofSpecifier, hmin, Option.map_none, Option.getD_none, List.not_mem_nil,
        false_implies, implies_true]
    | some width =>
      simp only [ofSpecifier, hmin]
      exact isDigit_toDigits width
  · obtain ⟨limit, _, rfl⟩ := Option.map_eq_some_iff.mp htext
    exact isDigit_toDigits limit.width

theorem specifier_ofSpecifier {s : Specifier} (hmin : ∀ width ∈ s.minWidth, width ≤ widthLimit)
    (hmax : ∀ limit ∈ s.limit, limit.width ≤ widthLimit) : (ofSpecifier s).specifier = s := by
  obtain ⟨minWidth, justification, limit⟩ := s
  -- the three parts are read back one by one
  have hminimum : width? ((minWidth.map (Nat.toDigits 10)).getD []) = minWidth := by
    cases minWidth with
    | none => rfl
    | some width => exact width?_toDigits (hmin width rfl)
  have hjustification : (if justification = .left then .left else .right) = justification := by
    cases justification <;> rfl
  have hmaximum : (limit.map fun limit : Fitting.Limit =>
      (⟨limit.keep ≠ .tail, Nat.toDigits 10 limit.width⟩ : MaximumText)).bind
        MaximumText.limit? = limit := by
    cases limit with
    | none => rfl
    | some limit =>
      obtain ⟨width, keep⟩ := limit
      have hwidth := width?_toDigits (hmax _ rfl)
      cases keep <;>
        simp only [Option.map_some, Option.bind_some, MaximumText.limit?, hwidth] <;> rfl
  simp only [specifier, ofSpecifier, hminimum, hmaximum, decide_eq_true_eq, hjustification]

theorem warnings_ofSpecifier {s : Specifier} (hmin : ∀ width ∈ s.minWidth, width ≤ widthLimit)
    (hmax : ∀ limit ∈ s.limit, limit.width ≤ widthLimit) (offset : Nat) :
    (ofSpecifier s).warnings offset = [] := by
  obtain ⟨minWidth, justification, limit⟩ := s
  unfold warnings
  refine List.append_eq_nil_iff.mpr ⟨?_, ?_⟩
  · refine if_neg fun h => ?_
    cases minWidth with
    | none => exact h.1 rfl
    | some width =>
      have hwidth := width?_toDigits (hmin width rfl)
      exact Option.some_ne_none width (hwidth.symm.trans h.2)
  · cases limit with
    | none => rfl
    | some limit =>
      have hwidth := width?_toDigits (hmax limit rfl)
      show MaximumText.warnings _ ⟨_, Nat.toDigits 10 limit.width⟩ = []
      unfold MaximumText.warnings
      dsimp only
      rw [if_neg Nat.toDigits_ne_nil, if_neg (by rw [hwidth]; exact Option.some_ne_none _)]

end Modifiers

/-! ## Options as blocks -/

namespace OptionBlock

/-- The block with a printed option before the first field. -/
def consOption (option : String) (block : OptionBlock) : OptionBlock :=
  ⟨printOption option ++ block.body, option.toList ++ block.first, block.others⟩

/-- The block that options are printed as. -/
def ofOptions : List String → OptionBlock
  | [] => empty
  | [option] => empty.consOption option
  | option :: options => (ofOptions options).consComma.consOption option

theorem wellFormed_consOption {block : OptionBlock} (h : block.WellFormed) (option : String) :
    (block.consOption option).WellFormed := by
  unfold consOption printOption
  induction option.toList with
  | nil => exact h
  | cons c cs ih =>
    rw [List.flatMap_cons]
    by_cases hc : c = '\\' ∨ c = ',' ∨ c = '}'
    · rw [if_pos hc]
      exact .escaped c ih
    · rw [if_neg hc]
      obtain ⟨hslash, hcomma, hbrace⟩ : c ≠ '\\' ∧ c ≠ ',' ∧ c ≠ '}' :=
        ⟨fun h => hc (.inl h), fun h => hc (.inr (.inl h)), fun h => hc (.inr (.inr h))⟩
      exact .plain hbrace hcomma hslash ih

theorem wellFormed_ofOptions (options : List String) : (ofOptions options).WellFormed := by
  fun_induction ofOptions options with
  | case1 => exact .empty
  | case2 option => exact wellFormed_consOption .empty option
  | case3 option options _ ih => exact wellFormed_consOption (.comma ih) option

theorem body_ofOptions (options : List String) :
    (ofOptions options).body = [','].intercalate (options.map printOption) := by
  fun_induction ofOptions options with
  | case1 => rfl
  | case2 option =>
    simp only [consOption, empty, List.map, List.intercalate_singleton, List.append_nil]
  | case3 option options hne ih =>
    obtain ⟨next, options, rfl⟩ := List.exists_cons_of_ne_nil hne
    rw [List.map_cons, List.map_cons, List.intercalate_cons_cons, ← List.map_cons, ← ih,
      List.append_assoc]
    rfl

theorem source_ofOptions (options : List String) :
    (ofOptions options).source = printOptions options := by
  unfold source printOptions
  rw [body_ofOptions]
  rfl

theorem fields_ofOptions (option : String) (options : List String) :
    (ofOptions (option :: options)).first = option.toList ∧
      (ofOptions (option :: options)).others = options.map String.toList := by
  induction options generalizing option with
  | nil => exact ⟨List.append_nil _, rfl⟩
  | cons next options ih =>
    obtain ⟨hfirst, hothers⟩ := ih next
    refine ⟨List.append_nil _, ?_⟩
    show (ofOptions (next :: options)).first :: (ofOptions (next :: options)).others = _
    rw [hfirst, hothers, List.map_cons]

theorem options_ofOptions {options : List String} (h : options ≠ [""]) :
    (ofOptions options).options = options := by
  cases options with
  | nil => rfl
  | cons option options =>
    obtain ⟨hfirst, hothers⟩ := fields_ofOptions option options
    have hnotEmpty : ¬(options.map String.toList = [] ∧ option.toList = []) := by
      rintro ⟨hnone, hempty⟩
      rw [List.map_eq_nil_iff] at hnone
      rw [String.toList_eq_nil_iff] at hempty
      rw [hnone, hempty] at h
      exact h rfl
    unfold OptionBlock.options
    rw [hfirst, hothers, if_neg hnotEmpty, ← List.map_cons, List.map_map]
    simp only [Function.comp_def, String.ofList_toList, List.map_id']

end OptionBlock

end LogLayout.Pattern
