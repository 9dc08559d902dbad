import LogLayout.Pattern.Modifiers
import LogLayout.Pattern.OptionBlock
import LogLayout.TokenTable

/-!
# Pieces of a pattern

A pattern is cut from the left into pieces: plain characters, the escape `%%`, directives, and the
malformed texts that a `%` can begin. Which letters name a directive depends on a token table: of
a run of letters the longest prefix that is bound is taken, and the letters behind it are plain.
-/

namespace LogLayout.Pattern

variable {α : Type}

/-- A recognised directive, with the value bound to its token. -/
structure Directive (α : Type) where
  modifiers : Modifiers
  token : List Char
  value : α
  options : OptionPart

inductive Piece (α : Type) where
  | plain (c : Char)
  | percent
  /-- A `%` at the end of the pattern. -/
  | dangling
  /-- A `%` and modifiers with no letter behind them. -/
  | nameless (modifiers : Modifiers)
  /-- A directive whose run of letters has no bound prefix. -/
  | unknown (modifiers : Modifiers) (word : List Char) (options : OptionPart)
  | directive (d : Directive α)

def Directive.source (d : Directive α) : List Char :=
  '%' :: (d.modifiers.source ++ d.token ++ d.options.source)

namespace Piece

def source : Piece α → List Char
  | .plain c => [c]
  | .percent => ['%', '%']
  | .dangling => ['%']
  | .nameless modifiers => '%' :: modifiers.source
  | .unknown modifiers word options => '%' :: (modifiers.source ++ word ++ options.source)
  | .directive d => d.source

/-- Reads what follows a `%` that is neither the last character nor followed by another one. -/
def readDirective (table : TokenTable α) (cs : List Char) : Piece α × List Char :=
  let (modifiers, cs) := Modifiers.read cs
  let word := cs.takeWhile Char.isAlpha
  if word = [] then (.nameless modifiers, cs)
  else
    match table.longestMatch? word with
    | none =>
      let (options, rest) := OptionPart.read (cs.drop word.length)
      (.unknown modifiers word options, rest)
    | some (token, value) =>
      let (options, rest) := OptionPart.read (cs.drop token.length)
      (.directive ⟨modifiers, token, value, options⟩, rest)

/-- Reads the piece that begins with `c`. -/
def read (table : TokenTable α) (c : Char) (cs : List Char) : Piece α × List Char :=
  if c = '%' then
    match cs with
    | [] => (.dangling, [])
    | '%' :: rest => (.percent, rest)
    | cs => readDirective table cs
  else (.plain c, cs)

/-! ## Nothing is lost -/

/-- The token found in a word is a prefix of it. -/
theorem eq_take_of_longestMatch? {table : TokenTable α} {word token : List Char} {value : α}
    (h : table.longestMatch? word = some (token, value)) :
    ∃ n, n < word.length ∧ token = word.take (n + 1) ∧
      table.get? (String.ofList token) = some value := by
  obtain ⟨n, hn, hv⟩ := List.exists_of_findSome?_eq_some h
  obtain ⟨v, hg, he⟩ := Option.map_eq_some_iff.mp hv
  cases he
  exact ⟨n, by simpa using hn, rfl, hg⟩

theorem take_append_drop_of_prefix {cs word : List Char} (h : word <+: cs) (n : Nat) :
    word.take n ++ cs.drop (word.take n).length = cs := by
  obtain ⟨rest, rfl⟩ := h
  by_cases hn : n ≤ word.length
  · rw [List.length_take, Nat.min_eq_left hn, List.drop_append_of_le_length hn,
      ← List.append_assoc, List.take_append_drop]
  · rw [List.take_of_length_le (by omega), List.drop_left]

theorem readDirective_source (table : TokenTable α) (cs : List Char) :
    (readDirective table cs).1.source ++ (readDirective table cs).2 = '%' :: cs := by
  have hm := Modifiers.source_append_read cs
  have hw : (Modifiers.read cs).2.takeWhile Char.isAlpha <+: (Modifiers.read cs).2 :=
    List.takeWhile_prefix _
  simp only [readDirective]
  split
  · simp only [source, List.cons_append, hm]
  · split
    · have ho := OptionPart.source_append_read
        ((Modifiers.read cs).2.drop ((Modifiers.read cs).2.takeWhile Char.isAlpha).length)
      have ht := take_append_drop_of_prefix hw ((Modifiers.read cs).2.takeWhile Char.isAlpha).length
      rw [List.take_length] at ht
      simp only [source, List.cons_append, List.append_assoc, ho, ht, hm]
    · rename_i token value hmatch
      obtain ⟨n, _, rfl, _⟩ := eq_take_of_longestMatch? hmatch
      have ho := OptionPart.source_append_read ((Modifiers.read cs).2.drop
        (((Modifiers.read cs).2.takeWhile Char.isAlpha).take (n + 1)).length)
      have ht := take_append_drop_of_prefix hw (n + 1)
      simp only [source, Directive.source, List.cons_append, List.append_assoc, ho, ht, hm]

/-- A piece and what is left of the text make up the text. -/
theorem read_source (table : TokenTable α) (c : Char) (cs : List Char) :
    (read table c cs).1.source ++ (read table c cs).2 = c :: cs := by
  unfold read
  split
  · subst_vars
    split
    · rfl
    · rfl
    · exact readDirective_source table cs
  · rfl

/-- No piece is empty. -/
theorem source_length_pos (piece : Piece α) : 0 < piece.source.length := by
  cases piece <;> simp [source, Directive.source]

/-- What is left behind a piece is shorter than the text. -/
theorem read_length (table : TokenTable α) (c : Char) (cs : List Char) :
    (read table c cs).2.length < (c :: cs).length := by
  have h := congrArg List.length (read_source table c cs)
  have hp := source_length_pos (read table c cs).1
  rw [List.length_append] at h
  omega

def scan (table : TokenTable α) : List Char → List (Piece α)
  | [] => []
  | c :: cs => (read table c cs).1 :: scan table (read table c cs).2
termination_by cs => cs.length
decreasing_by exact read_length table c cs

end Piece

end LogLayout.Pattern
