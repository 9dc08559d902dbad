import LogLayout.Proofs.Pattern.Parser.Parts
import LogLayout.Proofs.Pattern.Printer

/-!
# Options in passes of their own

The one pass over a block looks for its end, cuts at the commas and takes the escapes away. These
are three readings of the text here, one after the other: of what stands before the first closing
brace, of the fields between the commas in it, and of each field without its escapes.

Results:
1. `isSplit_iff`: a body is cut into fields in one way.
2. `OptionBlock.WellFormed.options_eq`: the options of a block are the fields without their escapes.
3. `OptionBlock.exists_options_iff`: the lists of options that blocks have.
4. `options_in_passes`: what the parser reads at an opening brace.
-/

namespace LogLayout.Pattern

variable {c : Char} {cs body field : List Char} {fields : List (List Char)}

/-- The character stands in the text, and not in an escape. -/
def Unescaped (c : Char) (cs : List Char) : Prop :=
  ∃ front behind, EscapesEnd front ∧ cs = front ++ c :: behind

/-- The fields between the commas that are not escaped, as they are written. -/
def splitFields : List Char → List (List Char)
  | [] => [[]]
  | ',' :: cs => [] :: splitFields cs
  | '\\' :: c :: cs => (splitFields cs).modifyHead (['\\', c] ++ ·)
  | c :: cs => (splitFields cs).modifyHead ([c] ++ ·)

/-- The text with each escaped character in place of its escape. -/
def unescape : List Char → List Char
  | [] => []
  | '\\' :: c :: cs => c :: unescape cs
  | c :: cs => c :: unescape cs

/-- The text is a field as it is written: no comma in it separates, and no escape goes on behind
it. -/
structure IsField (field : List Char) : Prop where
  escapesEnd : EscapesEnd field
  no_comma : ¬Unescaped ',' field

/-- Fields that make up the body, with a comma between each two of them. -/
structure IsSplit (body : List Char) (fields : List (List Char)) : Prop where
  nonempty : fields ≠ []
  joined : [','].intercalate fields = body
  isField : ∀ field ∈ fields, IsField field

/-! ## Characters outside escapes -/

theorem hasClosingBrace_iff : HasClosingBrace cs ↔ Unescaped '}' cs := Iff.rfl

theorem not_unescaped_nil : ¬Unescaped c [] := by
  rintro ⟨front, behind, -, hcs⟩
  cases front <;> cases hcs

theorem unescaped_cons_iff {d : Char} (hslash : d ≠ '\\') :
    Unescaped c (d :: cs) ↔ c = d ∨ Unescaped c cs := by
  constructor
  · rintro ⟨front, behind, hfront, hcs⟩
    cases hfront with
    | nil => exact .inl (List.cons.inj hcs).1.symm
    | plain _ hfront => exact .inr ⟨_, _, hfront, (List.cons.inj hcs).2⟩
    | escape => exact absurd (List.cons.inj hcs).1 hslash
  · rintro (rfl | ⟨front, behind, hfront, rfl⟩)
    · exact ⟨[], cs, .nil, rfl⟩
    · exact ⟨d :: front, behind, .plain hslash hfront, rfl⟩

theorem unescaped_escape_iff {d : Char} (hslash : c ≠ '\\') :
    Unescaped c ('\\' :: d :: cs) ↔ Unescaped c cs := by
  constructor
  · rintro ⟨front, behind, hfront, hcs⟩
    cases hfront with
    | nil => exact absurd (List.cons.inj hcs).1.symm hslash
    | plain hplain => exact absurd (List.cons.inj hcs).1.symm hplain
    | escape _ hfront => exact ⟨_, _, hfront, (List.cons.inj (List.cons.inj hcs).2).2⟩
  · rintro ⟨front, behind, hfront, rfl⟩
    exact ⟨'\\' :: d :: front, behind, .escape d hfront, rfl⟩

theorem OptionBlock.WellFormed.not_unescaped_brace {block : OptionBlock} (h : block.WellFormed) :
    ¬Unescaped '}' block.body := by
  induction h with
  | empty => exact not_unescaped_nil
  | plain hbrace _ hslash _ ih =>
    exact (unescaped_cons_iff hslash).not.mpr (not_or.mpr ⟨hbrace.symm, ih⟩)
  | escaped c _ ih => exact (unescaped_escape_iff (by decide)).not.mpr ih
  | comma _ ih => exact (unescaped_cons_iff (by decide)).not.mpr (not_or.mpr ⟨by decide, ih⟩)

/-! ## Fields -/

theorem isField_nil : IsField [] := ⟨.nil, not_unescaped_nil⟩

theorem isField_plain (hcomma : c ≠ ',') (hslash : c ≠ '\\') (h : IsField field) :
    IsField ([c] ++ field) := by
  refine ⟨.plain hslash h.escapesEnd, fun hmem => ?_⟩
  obtain hc | hfield := (unescaped_cons_iff hslash).mp hmem
  · exact hcomma hc.symm
  · exact h.no_comma hfield

theorem isField_escape (c : Char) (h : IsField field) : IsField (['\\', c] ++ field) :=
  ⟨.escape c h.escapesEnd, fun hmem => h.no_comma ((unescaped_escape_iff (by decide)).mp hmem)⟩

theorem splitFields_plain (hcomma : c ≠ ',') (hslash : c ≠ '\\') :
    splitFields (c :: cs) = (splitFields cs).modifyHead ([c] ++ ·) := by
  rw [splitFields]
  · exact hcomma
  · exact fun _ _ hc _ => hslash hc

theorem unescape_plain (hslash : c ≠ '\\') : unescape (c :: cs) = c :: unescape cs := by
  rw [unescape]
  exact fun _ _ hc _ => hslash hc

namespace IsSplit

theorem modifyHead {written : List Char} (h : IsSplit body fields)
    (hwritten : ∀ field, IsField field → IsField (written ++ field)) :
    IsSplit (written ++ body) (fields.modifyHead (written ++ ·)) := by
  obtain ⟨hnonempty, rfl, hfields⟩ := h
  obtain ⟨first, others, rfl⟩ := List.exists_cons_of_ne_nil hnonempty
  rw [List.modifyHead_cons]
  refine ⟨List.cons_ne_nil _ _, ?_, ?_⟩
  · cases others with
    | nil => rw [List.intercalate_singleton, List.intercalate_singleton]
    | cons next others =>
      rw [List.intercalate_cons_cons, List.intercalate_cons_cons, List.append_assoc,
        List.append_assoc, List.append_assoc]
  · rw [List.forall_mem_cons] at hfields ⊢
    exact ⟨hwritten first hfields.1, hfields.2⟩

theorem comma (h : IsSplit body fields) : IsSplit (',' :: body) ([] :: fields) := by
  obtain ⟨hnonempty, rfl, hfields⟩ := h
  obtain ⟨first, others, rfl⟩ := List.exists_cons_of_ne_nil hnonempty
  refine ⟨List.cons_ne_nil _ _, ?_, List.forall_mem_cons.mpr ⟨isField_nil, hfields⟩⟩
  rw [List.intercalate_cons_cons]
  rfl

end IsSplit

theorem isSplit_splitFields (h : EscapesEnd body) : IsSplit body (splitFields body) := by
  induction h with
  | nil => exact ⟨List.cons_ne_nil _ _, rfl, List.forall_mem_singleton.mpr isField_nil⟩
  | @plain c cs hslash _ ih =>
    by_cases hcomma : c = ','
    · subst hcomma
      exact ih.comma
    · rw [splitFields_plain hcomma hslash]
      exact ih.modifyHead fun _ hfield => isField_plain hcomma hslash hfield
  | escape c _ ih => exact ih.modifyHead fun _ hfield => isField_escape c hfield

theorem splitFields_append (h : IsField field) (cs : List Char) :
    splitFields (field ++ cs) = (splitFields cs).modifyHead (field ++ ·) := by
  obtain ⟨hends, hcomma⟩ := h
  induction hends with
  | nil => exact (congrFun List.modifyHead_id _).symm
  | plain hslash _ ih =>
    rw [unescaped_cons_iff hslash, not_or] at hcomma
    rw [List.cons_append, splitFields_plain (Ne.symm hcomma.1) hslash, ih hcomma.2,
      List.modifyHead_modifyHead]
    rfl
  | escape c _ ih =>
    rw [unescaped_escape_iff (by decide)] at hcomma
    rw [List.cons_append, List.cons_append, splitFields, ih hcomma, List.modifyHead_modifyHead]
    rfl

theorem IsSplit.eq_splitFields (h : IsSplit body fields) : fields = splitFields body := by
  obtain ⟨hnonempty, rfl, hfields⟩ := h
  induction fields with
  | nil => exact absurd rfl hnonempty
  | cons field others ih =>
    rw [List.forall_mem_cons] at hfields
    cases others with
    | nil =>
      have hlast := splitFields_append hfields.1 []
      rw [List.append_nil, splitFields, List.modifyHead_cons, List.append_nil] at hlast
      rw [List.intercalate_singleton, hlast]
    | cons next others =>
      rw [List.intercalate_cons_cons, List.append_assoc, List.singleton_append,
        splitFields_append hfields.1, splitFields, List.modifyHead_cons, List.append_nil,
        ← ih (List.cons_ne_nil _ _) hfields.2]

/-- A body is cut into fields in one way. -/
theorem isSplit_iff (h : EscapesEnd body) : IsSplit body fields ↔ fields = splitFields body := by
  refine ⟨IsSplit.eq_splitFields, ?_⟩
  rintro rfl
  exact isSplit_splitFields h

/-! ## Options -/

theorem map_unescape_modifyHead {written : List Char}
    (h : ∀ field, unescape (written ++ field) = c :: unescape field) :
    (fields.modifyHead (written ++ ·)).map unescape =
      (fields.map unescape).modifyHead (c :: ·) := by
  cases fields with
  | nil => rfl
  | cons field others =>
    rw [List.modifyHead_cons, List.map_cons, List.map_cons, List.modifyHead_cons, h]

namespace OptionBlock

variable {block : OptionBlock}

/-- The fields that were read are those between the commas, without their escapes. -/
theorem WellFormed.fields_eq (h : block.WellFormed) :
    (splitFields block.body).map unescape = block.first :: block.others := by
  induction h with
  | empty => rfl
  | @plain c block _ hcomma hslash _ ih =>
    show (splitFields (c :: block.body)).map unescape = _
    rw [splitFields_plain hcomma hslash, map_unescape_modifyHead fun _ => unescape_plain hslash, ih]
    rfl
  | @escaped c block _ ih =>
    show (splitFields ('\\' :: c :: block.body)).map unescape = _
    rw [splitFields, map_unescape_modifyHead fun _ => rfl, ih]
    rfl
  | @comma block _ ih =>
    show (splitFields (',' :: block.body)).map unescape = _
    rw [splitFields, List.map_cons, ih]
    rfl

theorem WellFormed.body_eq_nil_iff (h : block.WellFormed) :
    block.body = [] ↔ block.others = [] ∧ block.first = [] := by
  cases h with
  | empty => exact ⟨fun _ => ⟨rfl, rfl⟩, fun _ => rfl⟩
  | plain | escaped =>
    exact ⟨fun hbody => absurd hbody (List.cons_ne_nil _ _),
      fun hfields => absurd hfields.2 (List.cons_ne_nil _ _)⟩
  | comma =>
    exact ⟨fun hbody => absurd hbody (List.cons_ne_nil _ _),
      fun hfields => absurd hfields.1 (List.cons_ne_nil _ _)⟩

theorem WellFormed.options_eq (h : block.WellFormed) :
    block.options = if block.body = [] then []
      else (splitFields block.body).map fun field => String.ofList (unescape field) := by
  simp only [options, ← h.body_eq_nil_iff]
  rw [← h.fields_eq, List.map_map]
  rfl

theorem options_ne_singleton_empty (block : OptionBlock) : block.options ≠ [""] := by
  intro hoptions
  unfold options at hoptions
  split at hoptions
  · cases hoptions
  · rename_i hfields
    obtain ⟨hfirst, hothers⟩ := List.cons.inj hoptions
    refine hfields ⟨List.map_eq_nil_iff.mp hothers, ?_⟩
    have hlist := congrArg String.toList hfirst
    rwa [String.toList_ofList] at hlist

/-- The lists of options that blocks have are all but that of a single empty one. -/
theorem exists_options_iff {options : List String} :
    (∃ block : OptionBlock, block.WellFormed ∧ block.options = options) ↔ options ≠ [""] := by
  constructor
  · rintro ⟨block, -, rfl⟩
    exact options_ne_singleton_empty block
  · intro hoptions
    exact ⟨ofOptions options, wellFormed_ofOptions options, options_ofOptions hoptions⟩

end OptionBlock

/-- What stands before the first closing brace that is not escaped is the body of a block. -/
theorem exists_block_of_unescaped {text : List Char} (h : Unescaped '}' text) :
    ∃ (block : OptionBlock) (rest : List Char),
      text = block.body ++ '}' :: rest ∧ block.WellFormed := by
  rw [← hasClosingBrace_iff] at h
  cases hread : OptionBlock.read text with
  | none => exact absurd h (OptionBlock.read_eq_none_iff_not_hasClosingBrace.mp hread)
  | some found =>
    obtain ⟨hbody, hblock⟩ := OptionBlock.read_eq_some_iff.mp hread
    exact ⟨found.1, found.2, hbody.symm, hblock⟩

/-! ## The parser -/

open Text (byteLength)

section

variable {parser : Parser} {before text rest : List Char} {pattern : String}

theorem runs_options_unterminated (hpattern : pattern.toList = before ++ '{' :: text)
    (hopen : ¬Unescaped '}' text) :
    Runs pattern (Parse.options pattern) (parser.behind before) []
      ((parser.behind before).warn (byteLength before) .unterminatedBlock) := by
  rw [← hasClosingBrace_iff, ← OptionBlock.read_eq_none_iff_not_hasClosingBrace,
    OptionBlock.read_eq_none_iff] at hopen
  have hruns := runs_options parser hpattern (.unterminated rfl hopen)
  rw [show OptionPart.unterminated.source = [] from rfl, List.append_nil] at hruns
  exact hruns

theorem runs_options_block {block : OptionBlock}
    (hpattern : pattern.toList = before ++ '{' :: (block.body ++ '}' :: rest))
    (hblock : block.WellFormed) :
    Runs pattern (Parse.options pattern) (parser.behind before) block.options
      (parser.behind (before ++ block.source)) := by
  rw [← OptionBlock.source_append] at hpattern
  have hruns := runs_options parser hpattern (.block hblock)
  rw [show (OptionPart.block block).warnings (byteLength before) = [] from rfl,
    Parser.warned_nil] at hruns
  exact hruns

end

/-- The parser reads options at an opening brace. Without a closing brace behind it that is not
escaped, there are none, the parser stays where it is, and warns once. Otherwise it stops behind the
first such brace and warns of nothing, and the options are the fields without their escapes. -/
theorem options_in_passes :
    (∀ (parser : Parser) (before text : List Char) (pattern : String),
      pattern.toList = before ++ '{' :: text →
      (¬Unescaped '}' text →
        Runs pattern (Parse.options pattern) (parser.behind before) []
          ((parser.behind before).warn (byteLength before) .unterminatedBlock)) ∧
      (Unescaped '}' text → ∃ body rest,
        text = body ++ '}' :: rest ∧ EscapesEnd body ∧ ¬Unescaped '}' body ∧
        (∀ fields, IsSplit body fields ↔ fields = splitFields body) ∧
        Runs pattern (Parse.options pattern) (parser.behind before)
          (if body = [] then []
            else (splitFields body).map fun field => String.ofList (unescape field))
          (parser.behind (before ++ ('{' :: body ++ ['}']))))) ∧
    ∀ options : List String,
      (∃ parser before text pattern after,
        pattern.toList = before ++ '{' :: text ∧ Unescaped '}' text ∧
        Runs pattern (Parse.options pattern) (Parser.behind parser before) options after) ↔
        options ≠ [""] := by
  refine ⟨fun parser before text pattern hpattern => ⟨runs_options_unterminated hpattern, ?_⟩,
    fun options => ⟨?_, fun hoptions => ?_⟩⟩
  · intro hclosing
    obtain ⟨block, rest, rfl, hblock⟩ := exists_block_of_unescaped hclosing
    refine ⟨block.body, rest, rfl, hblock.escapesEnd, hblock.not_unescaped_brace,
      fun _ => isSplit_iff hblock.escapesEnd, ?_⟩
    rw [← hblock.options_eq]
    exact runs_options_block hpattern hblock
  · rintro ⟨parser, before, text, pattern, after, hpattern, hclosing, hruns⟩
    obtain ⟨block, rest, rfl, hblock⟩ := exists_block_of_unescaped hclosing
    rw [hruns.result_eq (runs_options_block hpattern hblock)]
    exact block.options_ne_singleton_empty
  · obtain ⟨block, hblock, rfl⟩ := OptionBlock.exists_options_iff.mpr hoptions
    have hpattern : (String.ofList ([] ++ '{' :: (block.body ++ '}' :: []))).toList =
      [] ++ '{' :: (block.body ++ '}' :: []) := String.toList_ofList
    exact ⟨{}, [], _, _, _, hpattern, ⟨block.body, [], hblock.escapesEnd, rfl⟩,
      runs_options_block hpattern hblock⟩

end LogLayout.Pattern
