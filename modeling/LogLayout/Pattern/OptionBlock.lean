import LogLayout.Text.Size

/-!
# Option blocks

Behind the name of a directive may stand options in braces, separated by commas. A backslash takes
the character after it into the option, whatever it is. The block ends at the first closing brace
that is not taken so; a block without one is unterminated.

A block is read in one pass, which collects the fields and counts the bytes up to the closing brace
(`OptionBlock.take?`); `take?_eq_read` says that this is to read it character by character.
-/

namespace LogLayout.Pattern

/-- A terminated block: the text between the braces, and the fields that commas separate in it,
without the backslashes that escape. -/
structure OptionBlock where
  body : List Char
  first : List Char
  others : List (List Char)
  deriving DecidableEq, Repr

namespace OptionBlock

def empty : OptionBlock := ⟨[], [], []⟩

/-- The block with a character, as written, before the first field. -/
def consChar (written : List Char) (c : Char) (block : OptionBlock) : OptionBlock :=
  ⟨written ++ block.body, c :: block.first, block.others⟩

/-- The block with a comma before the first field. -/
def consComma (block : OptionBlock) : OptionBlock :=
  ⟨',' :: block.body, [], block.first :: block.others⟩

/-- Searches the text at a position for the closing brace, behind fields that commas ended and the
characters of another one, both with the last one first. Gives all fields and the position of the
brace. -/
def close? (fields : List (List Char)) (current : List Char) (position : Nat) :
    List Char → Option (List (List Char) × Nat)
  | [] => none
  | '}' :: _ => some ((current.reverse :: fields).reverse, position)
  | ',' :: rest => close? (current.reverse :: fields) [] (position + ','.utf8Size) rest
  | ['\\'] => close? fields ('\\' :: current) (position + '\\'.utf8Size) []
  | '\\' :: c :: rest =>
    close? fields (c :: current) (position + ('\\'.utf8Size + c.utf8Size)) rest
  | c :: rest => close? fields (c :: current) (position + c.utf8Size) rest

/-- Takes a block from the text behind its opening brace: the text before the closing brace, the
fields, and the text from the position behind that brace on. -/
def take? (cs : List Char) : Option (OptionBlock × List Char) := do
  let (fields, position) ← close? [] [] 0 cs
  let (body, _) ← Text.splitAt? position cs
  let (_, rest) ← Text.splitAt? (position + 1) cs
  match fields with
  | [] => none
  | first :: others => return (⟨body, first, others⟩, rest)

/-- Reads a block character by character, and what is left behind it. -/
def read : List Char → Option (OptionBlock × List Char)
  | [] => none
  | '}' :: rest => some (empty, rest)
  | ',' :: rest => (read rest).map fun (block, rest) => (block.consComma, rest)
  | ['\\'] => none
  | '\\' :: c :: rest => (read rest).map fun (block, rest) => (block.consChar ['\\', c] c, rest)
  | c :: rest => (read rest).map fun (block, rest) => (block.consChar [c] c, rest)

def source (block : OptionBlock) : List Char :=
  '{' :: block.body ++ ['}']

/-- The options of the block: its fields, and none when the only field is empty. -/
def options (block : OptionBlock) : List String :=
  if block.others = [] ∧ block.first = [] then []
  else (block.first :: block.others).map String.ofList

/-- The block and what is left of the text make up the text. -/
theorem body_append_of_read {cs rest : List Char} {block : OptionBlock}
    (h : read cs = some (block, rest)) : block.body ++ '}' :: rest = cs := by
  fun_induction read cs generalizing block rest with
  | case1 => cases h
  | case2 => cases h; rfl
  | case4 => cases h
  | case3 cs ih | case5 c cs ih | case6 c cs _ _ _ _ ih =>
    obtain ⟨⟨b, r⟩, hr, he⟩ := Option.map_eq_some_iff.mp h
    cases he
    simp only [consComma, consChar, List.cons_append, List.nil_append, ih hr]

/-- The fields are those that are read, the first of them behind what was collected before, and the
position has moved over the body. -/
theorem close?_eq (fields : List (List Char)) (current : List Char) (position : Nat)
    (cs : List Char) :
    close? fields current position cs = (read cs).map fun (block, _) =>
      (fields.reverse ++ (current.reverse ++ block.first) :: block.others,
        position + Text.byteLength block.body) := by
  fun_induction close? fields current position cs with
  | case1 => rfl
  | case2 => simp only [read, Option.map_some, empty, List.reverse_cons, List.append_nil,
      Text.byteLength_nil, Nat.add_zero]
  | case3 fields current position cs ih =>
    rw [ih, read, Option.map_map]
    congr 1
    funext found
    simp only [Function.comp_apply, consComma, List.reverse_cons, List.reverse_nil,
      List.nil_append, List.append_nil, List.append_assoc, List.cons_append,
      Text.byteLength_cons, Nat.add_assoc]
  | case4 fields current position ih =>
    rw [ih, read, read]
    rfl
  | case5 fields current position c cs ih =>
    rw [ih, read, Option.map_map]
    congr 1
    funext found
    simp only [Function.comp_apply, consChar, List.reverse_cons, List.append_assoc,
      List.cons_append, List.nil_append, Text.byteLength_cons, Nat.add_assoc]
  | case6 fields current position c cs hbrace hcomma hlast hslash ih =>
    rw [ih, read, Option.map_map]
    · congr 1
      funext found
      simp only [Function.comp_apply, consChar, List.reverse_cons, List.append_assoc,
        List.cons_append, List.nil_append, Text.byteLength_cons, Nat.add_assoc]
    all_goals assumption

theorem take?_eq_read (cs : List Char) : take? cs = read cs := by
  unfold take?
  rw [close?_eq]
  cases hread : read cs with
  | none => rfl
  | some found =>
    obtain ⟨block, rest⟩ := found
    have hbody := body_append_of_read hread
    have hbefore : Text.splitAt? (Text.byteLength block.body) cs =
        some (block.body, '}' :: rest) := by
      rw [← hbody, Text.splitAt?_append]
    have hbehind : Text.splitAt? (Text.byteLength block.body + 1) cs =
        some (block.body ++ ['}'], rest) := by
      rw [← hbody, ← List.singleton_append, ← List.append_assoc]
      exact Text.byteLength_append block.body ['}'] ▸ Text.splitAt?_append _ rest
    simp only [Option.map_some, Option.bind_eq_bind, Option.bind_some, Nat.zero_add, hbefore,
      hbehind]
    rfl

end OptionBlock

/-- What stands behind the name of a directive in place of options. -/
inductive OptionPart where
  /-- There is no opening brace. -/
  | absent
  /-- The brace is never closed; it is left for the text that follows. -/
  | unterminated
  | block (options : OptionBlock)
  deriving DecidableEq, Repr

namespace OptionPart

/-- Reads a terminated block, and otherwise nothing. -/
def read : List Char → OptionPart × List Char
  | '{' :: rest =>
    match OptionBlock.take? rest with
    | some (options, rest) => (.block options, rest)
    | none => (.unterminated, '{' :: rest)
  | cs => (.absent, cs)

/-- The text of the block that was read. -/
def source : OptionPart → List Char
  | .block options => options.source
  | _ => []

def options : OptionPart → List String
  | .block options => options.options
  | _ => []

/-- The block and what is left of the text make up the text. -/
theorem source_append_read (cs : List Char) :
    (read cs).1.source ++ (read cs).2 = cs := by
  unfold read
  split
  · rename_i rest
    rw [OptionBlock.take?_eq_read]
    split
    · rename_i h
      simp only [source, OptionBlock.source, List.cons_append, List.append_assoc,
        List.nil_append, OptionBlock.body_append_of_read h]
    · rfl
  · rfl

end OptionPart

end LogLayout.Pattern
