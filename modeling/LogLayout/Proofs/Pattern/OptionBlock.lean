import LogLayout.Pattern.OptionBlock

/-!
# Option blocks that end

A block ends at the first closing brace that no backslash escapes. What stands before it is a word
of plain characters, escaped characters and commas, and there is one way to take it apart.

Results:
1. `OptionBlock.read_eq_some_iff`: the block that is read is the well-formed one whose body and
   brace the text begins with.
2. `OptionPart.read_eq_iff`: a block is read iff one ends, and otherwise nothing is.
3. `OptionBlock.read_eq_none_iff_not_hasClosingBrace`: no block is read iff no closing brace follows
   that is not escaped.
-/

namespace LogLayout.Pattern

namespace OptionBlock

variable {block : OptionBlock} {cs rest : List Char}

/-- The body is made of plain characters, escaped characters and commas, and the fields are what
the commas separate. -/
inductive WellFormed : OptionBlock → Prop where
  | empty : WellFormed empty
  | plain {c : Char} {block : OptionBlock} : c ≠ '}' → c ≠ ',' → c ≠ '\\' → WellFormed block →
    WellFormed (block.consChar [c] c)
  | escaped (c : Char) {block : OptionBlock} : WellFormed block →
    WellFormed (block.consChar ['\\', c] c)
  | comma {block : OptionBlock} : WellFormed block → WellFormed block.consComma

theorem read_plain {c : Char} (hbrace : c ≠ '}') (hcomma : c ≠ ',') (hslash : c ≠ '\\') :
    read (c :: cs) = (read cs).map fun (block, rest) => (block.consChar [c] c, rest) := by
  rw [read]
  · exact hbrace
  · exact hcomma
  · exact fun hc _ => hslash hc
  · exact fun _ _ hc _ => hslash hc

theorem read_append (h : block.WellFormed) (rest : List Char) :
    read (block.body ++ '}' :: rest) = some (block, rest) := by
  induction h with
  | empty => rfl
  | plain hbrace hcomma hslash _ ih =>
    simp only [consChar, List.cons_append, List.nil_append]
    rw [read_plain hbrace hcomma hslash, ih]
    rfl
  | escaped c _ ih =>
    simp only [consChar, List.cons_append, List.nil_append]
    rw [read, ih]
    rfl
  | comma _ ih =>
    simp only [consComma, List.cons_append]
    rw [read, ih]
    rfl

theorem wellFormed_of_read (h : read cs = some (block, rest)) : block.WellFormed := by
  fun_induction read cs generalizing block rest with
  | case1 | case4 => cases h
  | case2 =>
    cases h
    exact .empty
  | case3 cs ih =>
    obtain ⟨⟨inner, behind⟩, hread, he⟩ := Option.map_eq_some_iff.mp h
    cases he
    exact .comma (ih hread)
  | case5 c cs ih =>
    obtain ⟨⟨inner, behind⟩, hread, he⟩ := Option.map_eq_some_iff.mp h
    cases he
    exact .escaped c (ih hread)
  | case6 c cs hbrace hcomma hlast hslash ih =>
    obtain ⟨⟨inner, behind⟩, hread, he⟩ := Option.map_eq_some_iff.mp h
    cases he
    refine .plain hbrace hcomma ?_ (ih hread)
    intro hc
    -- a backslash is read together with the character after it, unless it is the last one
    cases cs with
    | nil => exact hlast hc rfl
    | cons d cs => exact hslash d cs hc rfl

theorem read_eq_some_iff :
    read cs = some (block, rest) ↔ block.body ++ '}' :: rest = cs ∧ block.WellFormed := by
  constructor
  · intro h
    exact ⟨body_append_of_read h, wellFormed_of_read h⟩
  · rintro ⟨rfl, h⟩
    exact read_append h rest

theorem source_append (block : OptionBlock) (rest : List Char) :
    block.source ++ rest = '{' :: (block.body ++ '}' :: rest) := by
  simp only [source, List.cons_append, List.append_assoc, List.nil_append]

theorem read_eq_none_iff :
    read cs = none ↔ ∀ block : OptionBlock, block.WellFormed → ¬ block.source <+: '{' :: cs := by
  constructor
  · rintro hnone block hblock ⟨rest, hrest⟩
    rw [source_append] at hrest
    rw [← (List.cons.inj hrest).2, read_append hblock rest] at hnone
    cases hnone
  · intro h
    cases hread : read cs with
    | none => rfl
    | some found =>
      obtain ⟨hbody, hblock⟩ := read_eq_some_iff.mp hread
      refine absurd ⟨found.2, ?_⟩ (h found.1 hblock)
      rw [source_append, hbody]

end OptionBlock

namespace OptionPart

/-- The part that stands before the rest of a text, behind the name of a directive. -/
inductive Stands : OptionPart → List Char → Prop where
  | absent {rest : List Char} : rest.head? ≠ some '{' → Stands .absent rest
  | unterminated {rest : List Char} : rest.head? = some '{' →
    (∀ block : OptionBlock, block.WellFormed → ¬ block.source <+: rest) →
    Stands .unterminated rest
  | block {options : OptionBlock} {rest : List Char} : options.WellFormed →
    Stands (.block options) rest

theorem read_eq_iff {cs rest : List Char} {part : OptionPart} :
    read cs = (part, rest) ↔ part.source ++ rest = cs ∧ part.Stands rest := by
  constructor
  · intro h
    have hsource := source_append_read cs
    rw [h] at hsource
    refine ⟨hsource, ?_⟩
    unfold read at h
    split at h
    · rw [OptionBlock.take?_eq_read] at h
      split at h
      · rename_i hread
        cases h
        exact .block (OptionBlock.wellFormed_of_read hread)
      · rename_i hread
        cases h
        exact .unterminated rfl (OptionBlock.read_eq_none_iff.mp hread)
    · rename_i hbrace
      cases h
      refine .absent fun hhead => ?_
      obtain ⟨behind, hbehind⟩ := List.head?_eq_some_iff.mp hhead
      exact hbrace behind hbehind
  · rintro ⟨rfl, h⟩
    cases h with
    | absent hhead =>
      show read rest = _
      unfold read
      split
      · exact absurd rfl hhead
      · rfl
    | unterminated hhead hnone =>
      obtain ⟨behind, rfl⟩ := List.head?_eq_some_iff.mp hhead
      show read ('{' :: behind) = _
      unfold read
      simp only [OptionBlock.take?_eq_read, OptionBlock.read_eq_none_iff.mpr hnone]
    | block hblock =>
      show read (OptionBlock.source _ ++ rest) = _
      rw [OptionBlock.source_append]
      unfold read
      simp only [OptionBlock.take?_eq_read, OptionBlock.read_append hblock rest]

end OptionPart

/-! ## Braces that close -/

/-- The text ends outside an escape: its last backslash takes a character of the text. -/
inductive EscapesEnd : List Char → Prop where
  | nil : EscapesEnd []
  | plain {c : Char} {cs : List Char} : c ≠ '\\' → EscapesEnd cs → EscapesEnd (c :: cs)
  | escape (c : Char) {cs : List Char} : EscapesEnd cs → EscapesEnd ('\\' :: c :: cs)

/-- Somewhere in the text stands a closing brace that is not escaped. -/
def HasClosingBrace (cs : List Char) : Prop :=
  ∃ body rest, EscapesEnd body ∧ cs = body ++ '}' :: rest

theorem OptionBlock.WellFormed.escapesEnd {block : OptionBlock} (h : block.WellFormed) :
    EscapesEnd block.body := by
  induction h with
  | empty => exact .nil
  | plain _ _ hslash _ ih => exact .plain hslash ih
  | escaped c _ ih => exact .escape c ih
  | comma _ ih => exact .plain (by decide) ih

theorem OptionBlock.exists_read_of_escapesEnd {body : List Char} (h : EscapesEnd body)
    (rest : List Char) : ∃ found, read (body ++ '}' :: rest) = some found := by
  induction h with
  | nil => exact ⟨_, rfl⟩
  | @plain c cs hslash _ ih =>
    obtain ⟨found, hfound⟩ := ih
    rw [List.cons_append]
    by_cases hbrace : c = '}'
    · subst hbrace
      exact ⟨_, rfl⟩
    · by_cases hcomma : c = ','
      · subst hcomma
        rw [read, hfound]
        exact ⟨_, rfl⟩
      · rw [read_plain hbrace hcomma hslash, hfound]
        exact ⟨_, rfl⟩
  | escape c _ ih =>
    obtain ⟨found, hfound⟩ := ih
    rw [List.cons_append, List.cons_append, read, hfound]
    exact ⟨_, rfl⟩

theorem OptionBlock.read_eq_none_iff_not_hasClosingBrace {cs : List Char} :
    read cs = none ↔ ¬HasClosingBrace cs := by
  constructor
  · rintro hnone ⟨body, rest, hbody, rfl⟩
    obtain ⟨found, hfound⟩ := exists_read_of_escapesEnd hbody rest
    rw [hnone] at hfound
    cases hfound
  · intro hopen
    cases hread : read cs with
    | none => rfl
    | some found =>
      obtain ⟨hbody, hblock⟩ := read_eq_some_iff.mp hread
      exact absurd ⟨_, _, hblock.escapesEnd, hbody.symm⟩ hopen

/-- Options are unterminated iff the text behind the name opens a brace that never closes. -/
theorem OptionPart.Stands.eq_unterminated_iff {options : OptionPart} {rest : List Char}
    (h : options.Stands rest) :
    options = .unterminated ↔
      ∃ more, options.source ++ rest = '{' :: more ∧ ¬HasClosingBrace more := by
  cases h with
  | absent hhead =>
    refine ⟨fun h => (OptionPart.noConfusion h), ?_⟩
    rintro ⟨more, hmore, _⟩
    rw [show rest = '{' :: more from hmore] at hhead
    exact absurd rfl hhead
  | unterminated hhead hnone =>
    obtain ⟨more, rfl⟩ := List.head?_eq_some_iff.mp hhead
    refine ⟨fun _ => ⟨more, rfl, ?_⟩, fun _ => rfl⟩
    exact OptionBlock.read_eq_none_iff_not_hasClosingBrace.mp
      (OptionBlock.read_eq_none_iff.mpr hnone)
  | @block block rest hblock =>
    refine ⟨fun h => (OptionPart.noConfusion h), ?_⟩
    rintro ⟨more, hmore, hopen⟩
    rw [show (OptionPart.block block).source = block.source from rfl, OptionBlock.source_append]
      at hmore
    exact absurd ⟨_, _, hblock.escapesEnd, (List.cons.inj hmore).2.symm⟩ hopen

end LogLayout.Pattern
