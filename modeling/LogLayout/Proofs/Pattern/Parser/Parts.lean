import LogLayout.Proofs.Pattern.Cut
import LogLayout.Proofs.Pattern.Parser.Runs

/-!
# The parts of a directive

The parser reads modifiers, names and option blocks where they stand in the pattern, warns of what
is malformed in them, and stops behind them.

Results:
1. `runs_modifiers`: modifiers that are taken as far as they go.
2. `runs_longestMatch`: the longest bound prefix of letters.
3. `runs_options`: a block of options, or its absence.
-/

namespace LogLayout.Pattern

open Text (byteLength)

variable {pattern : String} {parser : Parser} {before cs rest : List Char}

/-! ## Letters and bytes -/

theorem utf8Size_of_isDigit {c : Char} (h : c.isDigit) : c.utf8Size = 1 := by
  have hle : c.val ≤ 57 := of_decide_eq_true (Bool.and_eq_true_iff.mp h).2
  rw [Char.utf8Size_eq_one_iff]
  exact UInt32.le_trans hle (by decide)

theorem utf8Size_of_isAlpha {c : Char} (h : c.isAlpha) : c.utf8Size = 1 := by
  rw [Char.utf8Size_eq_one_iff]
  rcases Bool.or_eq_true_iff.mp h with h | h
  · have hupper : 65 ≤ c.val ∧ c.val ≤ 90 := of_decide_eq_true h
    exact UInt32.le_trans hupper.2 (by decide)
  · have hle : c.val ≤ 122 := of_decide_eq_true (Bool.and_eq_true_iff.mp h).2
    exact UInt32.le_trans hle (by decide)

theorem ofList_ne_empty {text : List Char} (h : text ≠ []) : String.ofList text ≠ "" := by
  intro hempty
  have hlist := congrArg String.toList hempty
  rw [String.toList_ofList] at hlist
  exact h hlist

theorem byteLength_of_ascii {text : List Char} (h : ∀ c ∈ text, c.utf8Size = 1) :
    byteLength text = text.length := by
  induction text with
  | nil => rfl
  | cons c text ih =>
    rw [Text.byteLength_cons, h c List.mem_cons_self,
      ih fun d hd => h d (List.mem_cons_of_mem c hd), List.length_cons, Nat.add_comm]

theorem byteLength_lt_append_iff {text : List Char} :
    byteLength before < byteLength (before ++ text) ↔ text ≠ [] := by
  rw [Text.byteLength_append]
  cases text with
  | nil => simp
  | cons c text =>
    have hc := c.utf8Size_pos
    rw [Text.byteLength_cons]
    exact ⟨fun _ => List.cons_ne_nil c text, fun _ => by omega⟩

/-! ## Modifiers -/

theorem runs_dash (parser : Parser) {present : Bool}
    (h : pattern.toList = before ++ (dashText present ++ rest))
    (hrest : present = false → rest.head? ≠ some '-') :
    Runs pattern (Parse.accept pattern '-') (parser.behind before) present
      (parser.behind (before ++ dashText present)) := by
  cases present with
  | true => exact runs_accept_of_head h rfl
  | false =>
    show Runs _ _ _ false (parser.behind (before ++ []))
    rw [List.append_nil]
    exact runs_accept_of_ne h (hrest rfl)

theorem runs_readWidth {digits : List Char} (hne : digits ≠ [])
    (hdigits : ∀ c ∈ digits, c.isDigit) :
    Runs pattern (Parse.readWidth (String.ofList digits)) parser (width? digits) parser := by
  have hsound : (Access.number (String.ofList digits)).Sound pattern := by
    refine ⟨ofList_ne_empty hne, fun c hc => ?_⟩
    rw [String.toList_ofList] at hc
    exact hdigits c hc
  unfold Parse.readWidth width?
  rw [if_neg hne, String.toList_ofList]
  exact .bind (.of_access hsound fun _ => rfl) .pure

theorem runs_width {digits : List Char} (h : pattern.toList = before ++ (digits ++ rest))
    (hrun : IsRun Char.isDigit digits rest) :
    Runs pattern (Parse.width pattern) (parser.behind before) (width? digits)
      (parser.behind (before ++ digits)) := by
  unfold Parse.width
  refine .bind runs_position (.bind (runs_skipWhile (fun _ => utf8Size_of_isDigit) hrun h)
    (.bind runs_position ?_))
  by_cases hnil : digits = []
  · subst hnil
    rw [List.append_nil, if_pos rfl]
    exact .pure
  · rw [if_neg (Nat.ne_of_lt (byteLength_lt_append_iff.mpr hnil))]
    exact .bind (runs_slice h rfl) (runs_readWidth hnil hrun.all)

/-- The warning of a least width, at its first digit. -/
def minimumWarnings (offset : Nat) (digits : List Char) : List Warning :=
  if digits ≠ [] ∧ width? digits = none then [⟨offset, .minimumOutOfRange⟩] else []

theorem runs_minimum {digits : List Char} (h : pattern.toList = before ++ (digits ++ rest))
    (hrun : IsRun Char.isDigit digits rest) :
    Runs pattern (Parse.minimum pattern) (parser.behind before) (width? digits)
      ((parser.warned (minimumWarnings (byteLength before) digits)).behind (before ++ digits)) := by
  unfold Parse.minimum minimumWarnings
  refine .bind runs_position (.bind (runs_width h hrun) (.bind runs_position ?_))
  have hiff : (width? digits = none ∧ byteLength before < byteLength (before ++ digits)) ↔
      digits ≠ [] ∧ width? digits = none := by
    rw [byteLength_lt_append_iff, and_comm]
  by_cases hwarn : digits ≠ [] ∧ width? digits = none
  · rw [if_pos hwarn, if_pos (hiff.mpr hwarn)]
    exact .bind runs_warn .pure
  · rw [if_neg hwarn, if_neg fun hboth => hwarn (hiff.mp hboth), Parser.warned_nil]
    exact .bind .pure .pure

/-! The parts of modifiers are each taken as far as they go. -/

/-- The text behind the point stands before the rest of a text. -/
structure MaximumText.Stands (text : MaximumText) (rest : List Char) : Prop where
  dash : text.keepsHead = false → (text.digits ++ rest).head? ≠ some '-'
  digits : IsRun Char.isDigit text.digits rest

/-- The modifiers stand before the rest of a text. -/
structure Modifiers.Stands (m : Modifiers) (rest : List Char) : Prop where
  dash : m.leftJustified = false → (m.minimum ++ (m.maximumSource ++ rest)).head? ≠ some '-'
  minimum : IsRun Char.isDigit m.minimum (m.maximumSource ++ rest)
  point : m.maximum = none → rest.head? ≠ some '.'
  maximum : ∀ text ∈ m.maximum, text.Stands rest

theorem head?_of_readDash (h : (readDash cs).1 = false) : (readDash cs).2.head? ≠ some '-' := by
  unfold readDash at h ⊢
  split at h
  · cases h
  · rename_i hne
    intro hhead
    obtain ⟨rest, hrest⟩ := List.head?_eq_some_iff.mp hhead
    exact hne rest hrest

theorem MaximumText.stands_read (cs : List Char) :
    (MaximumText.read cs).1.Stands (MaximumText.read cs).2 := by
  refine ⟨fun hdash => ?_, isRun_takeWhile Char.isDigit (readDash cs).2⟩
  show ((readDigits (readDash cs).2).1 ++ (readDigits (readDash cs).2).2).head? ≠ some '-'
  rw [readDigits_append]
  exact head?_of_readDash hdash

theorem Modifiers.stands_read (cs : List Char) :
    (Modifiers.read cs).1.Stands (Modifiers.read cs).2 := by
  have hdash := @head?_of_readDash cs
  have hdigits := readDigits_append (readDash cs).2
  have hrun : IsRun Char.isDigit (readDigits (readDash cs).2).1 (readDigits (readDash cs).2).2 :=
    isRun_takeWhile Char.isDigit (readDash cs).2
  rw [← hdigits] at hdash
  unfold Modifiers.read
  dsimp only
  split
  · rename_i behind hbehind
    have hsource : '.' :: (MaximumText.read behind).1.source ++ (MaximumText.read behind).2 =
        (readDigits (readDash cs).2).2 := by
      rw [List.cons_append, MaximumText.source_append_read, hbehind]
    rw [← hsource] at hdash hrun
    refine ⟨hdash, hrun, fun hnone => ?_, fun text htext => ?_⟩
    · cases hnone
    · rw [← Option.some.inj htext]
      exact MaximumText.stands_read behind
  · rename_i hpoint
    refine ⟨hdash, hrun, fun _ hhead => ?_, fun text htext => ?_⟩
    · obtain ⟨behind, hbehind⟩ := List.head?_eq_some_iff.mp hhead
      exact hpoint behind hbehind
    · cases htext

theorem runs_limit (parser : Parser) {text : MaximumText}
    (h : pattern.toList = before ++ (text.source ++ rest))
    (htext : text.Stands rest) :
    Runs pattern (Parse.limit pattern) (parser.behind before) text.limit?
      ((parser.warned (text.warnings (byteLength before))).behind (before ++ text.source)) := by
  obtain ⟨keepsHead, digits⟩ := text
  obtain ⟨hdash, hrun⟩ := htext
  unfold MaximumText.source at h ⊢
  unfold MaximumText.limit? MaximumText.warnings
  dsimp only at h hdash hrun ⊢
  rw [List.append_assoc] at h
  have hstart := runs_dash parser h hdash
  rw [← List.append_assoc] at h ⊢
  rw [← Text.byteLength_append]
  generalize before ++ dashText keepsHead = start at *
  unfold Parse.limit
  refine .bind hstart (.bind runs_position (.bind (runs_width h hrun) ?_))
  cases hwidth : width? digits with
  | some width =>
    have hne : digits ≠ [] := by
      rintro rfl
      cases hwidth
    rw [if_neg hne, if_neg (Option.some_ne_none width), Parser.warned_nil]
    exact .pure
  | none =>
    refine .bind runs_position ?_
    by_cases hnil : digits = []
    · rw [if_pos hnil, if_neg fun hlt => byteLength_lt_append_iff.mp hlt hnil]
      exact .bind runs_warn .pure
    · rw [if_neg hnil, if_pos rfl, if_pos (byteLength_lt_append_iff.mpr hnil)]
      exact .bind runs_warn .pure

/-- The warning of a greatest width whose point is at the position. -/
def maximumWarnings (offset : Nat) (maximum : Option MaximumText) : List Warning :=
  (maximum.map fun text => text.warnings (offset + 1)).getD []

theorem warnings_modifiers (m : Modifiers) (before : List Char) :
    m.warnings (byteLength before) =
      minimumWarnings (byteLength (before ++ dashText m.leftJustified)) m.minimum ++
        maximumWarnings (byteLength (before ++ dashText m.leftJustified ++ m.minimum))
          m.maximum := by
  rw [Text.byteLength_append (before ++ dashText m.leftJustified), Text.byteLength_append]
  obtain ⟨left, minimum, maximum⟩ := m
  cases maximum <;> rfl

theorem runs_maximum {m : Modifiers} (h : pattern.toList = before ++ (m.maximumSource ++ rest))
    (hm : m.Stands rest) :
    Runs pattern (Parse.maximum pattern) (parser.behind before) (m.maximum.bind MaximumText.limit?)
      ((parser.warned (maximumWarnings (byteLength before) m.maximum)).behind
        (before ++ m.maximumSource)) := by
  obtain ⟨left, minimum, maximum⟩ := m
  obtain ⟨-, -, hpoint, hmaximum⟩ := hm
  unfold Parse.maximum
  cases maximum with
  | none =>
    show Runs _ _ _ none ((parser.warned []).behind (before ++ []))
    rw [List.append_nil, Parser.warned_nil]
    exact .bind (runs_accept_of_ne h (hpoint rfl)) .pure
  | some text =>
    have hrest : pattern.toList = (before ++ ['.']) ++ (text.source ++ rest) := by
      rw [h, List.append_assoc]
      rfl
    refine .bind (runs_accept_of_head h rfl) ?_
    have hlimit := runs_limit parser hrest (hmaximum text rfl)
    rw [← byteLength_concat rfl, List.append_assoc] at hlimit
    exact hlimit

theorem runs_modifiers (parser : Parser) {m : Modifiers}
    (h : pattern.toList = before ++ (m.source ++ rest))
    (hm : m.Stands rest) :
    Runs pattern (Parse.modifiers pattern) (parser.behind before) m.specifier
      ((parser.warned (m.warnings (byteLength before))).behind (before ++ m.source)) := by
  have hsource : before ++ m.source =
      before ++ dashText m.leftJustified ++ m.minimum ++ m.maximumSource := by
    simp only [Modifiers.source, List.append_assoc]
  rw [← List.append_assoc, hsource] at h
  rw [warnings_modifiers, hsource, ← Parser.warned_warned]
  unfold Parse.modifiers
  simp only [List.append_assoc] at h
  refine .bind (runs_dash parser h hm.dash) ?_
  rw [← List.append_assoc] at h
  refine .bind (runs_minimum h hm.minimum) ?_
  rw [← List.append_assoc] at h
  exact .bind (runs_maximum h hm) .pure

/-! ## Names -/

variable {table : TokenTable Factory}

theorem runs_matchPrefix {word : List Char} (h : pattern.toList = before ++ (word ++ rest))
    (hword : ∀ c ∈ word, c.utf8Size = 1) {length : Nat} (hlength : length ≤ word.length) :
    Runs pattern (Parse.matchPrefix table pattern (byteLength before) length) parser
      ((List.range length).reverse.findSome? fun n =>
        (table.get? (String.ofList (word.take (n + 1)))).map fun factory =>
          (String.ofList (word.take (n + 1)), factory)) parser := by
  induction length with
  | zero => exact .pure
  | succ length ih =>
    have hstop : byteLength before + (length + 1) =
        byteLength (before ++ word.take (length + 1)) := by
      rw [Text.byteLength_append,
        byteLength_of_ascii fun c hc => hword c (List.mem_of_mem_take hc), List.length_take,
        Nat.min_eq_left hlength]
    have hslice : pattern.toList =
        before ++ (word.take (length + 1) ++ (word.drop (length + 1) ++ rest)) := by
      rw [h, ← List.append_assoc (word.take _), List.take_append_drop]
    rw [List.range_succ, List.reverse_append, List.reverse_singleton, List.singleton_append,
      List.findSome?_cons]
    unfold Parse.matchPrefix
    refine .bind (runs_slice hslice hstop) ?_
    cases table.get? (String.ofList (word.take (length + 1))) with
    | some factory => exact .pure
    | none => exact ih (Nat.le_of_succ_le hlength)

theorem runs_longestMatch {word : List Char} (h : pattern.toList = before ++ (word ++ rest))
    (hne : word ≠ []) (hword : ∀ c ∈ word, c.isAlpha) :
    Runs pattern (Parse.longestMatch table pattern (byteLength before) (String.ofList word)) parser
      ((table.longestMatch? word).map fun (token, factory) => (String.ofList token, factory))
      parser := by
  have hascii : ∀ c ∈ word, c.utf8Size = 1 := fun c hc => utf8Size_of_isAlpha (hword c hc)
  have hsound : (Access.word (String.ofList word)).Sound pattern := by
    refine ⟨ofList_ne_empty hne, fun c hc => ?_⟩
    rw [String.toList_ofList] at hc
    exact hword c hc
  unfold Parse.longestMatch TokenTable.longestMatch?
  rw [Text.utf8ByteSize_ofList, byteLength_of_ascii hascii, List.map_findSome?]
  simp only [Function.comp_def, Option.map_map]
  exact .bind (.of_access hsound fun _ => rfl) (runs_matchPrefix h hascii (Nat.le_refl _))

/-! ## Options -/

theorem optionTexts_eq (block : OptionBlock) :
    optionTexts (block.first :: block.others) = block.options := by
  unfold optionTexts OptionBlock.options
  simp only [List.cons.injEq, and_comm]

/-- The position behind a block, from its opening brace on. -/
theorem byteLength_block (block : OptionBlock) :
    byteLength before + 1 + (0 + byteLength block.body) + 1 =
      byteLength (before ++ block.source) := by
  unfold OptionBlock.source
  simp only [Text.byteLength_append, Text.byteLength_cons, Text.byteLength_nil]
  have hopening : '{'.utf8Size = 1 := rfl
  have hclosing : '}'.utf8Size = 1 := rfl
  omega

theorem runs_options (parser : Parser) {part : OptionPart}
    (h : pattern.toList = before ++ (part.source ++ rest)) (hpart : part.Stands rest) :
    Runs pattern (Parse.options pattern) (parser.behind before) part.options
      ((parser.warned (part.warnings (byteLength before))).behind (before ++ part.source)) := by
  unfold Parse.options
  cases hpart with
  | absent hhead =>
    show Runs _ _ _ [] ((parser.warned []).behind (before ++ []))
    rw [Parser.warned_nil, List.append_nil]
    have hrest : pattern.toList = before ++ rest := h
    refine .bind (runs_peek hrest) ?_
    rw [if_neg hhead]
    exact .pure
  | unterminated hhead hnone =>
    obtain ⟨behind, rfl⟩ := List.head?_eq_some_iff.mp hhead
    have hbrace : pattern.toList = before ++ '{' :: behind := h
    have hbehind : pattern.toList = (before ++ ['{']) ++ behind := by rw [hbrace, List.append_cons]
    show Runs _ _ _ [] (Parser.behind _ (before ++ []))
    rw [List.append_nil]
    refine .bind (runs_peek hbrace) ?_
    rw [if_pos hhead]
    refine .bind runs_position (.bind (runs_rest hbehind (byteLength_concat rfl)) ?_)
    rw [String.toList_ofList, OptionBlock.close?_eq, OptionBlock.read_eq_none_iff.mpr hnone]
    exact .bind runs_warn .pure
  | @block block rest hblock =>
    have hclosed : pattern.toList = (before ++ block.source) ++ rest := by
      rw [List.append_assoc]
      exact h
    have hbrace : pattern.toList = before ++ '{' :: (block.body ++ '}' :: rest) := by
      rw [hclosed, List.append_assoc, OptionBlock.source_append]
    have hbehind : pattern.toList = (before ++ ['{']) ++ (block.body ++ '}' :: rest) := by
      rw [hbrace, List.append_cons]
    show Runs _ _ _ block.options ((parser.warned []).behind (before ++ block.source))
    rw [Parser.warned_nil, ← optionTexts_eq]
    refine .bind (runs_peek hbrace) ?_
    rw [List.head?_cons, if_pos rfl]
    refine .bind runs_position (.bind (runs_rest hbehind (byteLength_concat rfl)) ?_)
    rw [String.toList_ofList, OptionBlock.close?_eq, OptionBlock.read_append hblock]
    exact .bind (runs_moveTo hclosed (byteLength_block block)) .pure

end LogLayout.Pattern
