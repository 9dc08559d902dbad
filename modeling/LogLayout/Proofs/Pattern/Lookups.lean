import LogLayout.Proofs.Pattern.Correspondence

/-!
# What a compilation asks its table

The only thing that compilation wants to know of a table is which token a run of letters begins
with, and what the factory of that token makes of the options behind it. Which runs are asked for
depends on the answers so far: a token that is found decides how much text it takes and whether a
block behind it is for options, and rejected options end the compilation.

Results:
1. `Lookup.read_eq`: a piece is read off the answer to the one look-up that it needs.
2. `correspond_scan`: two tables that give corresponding answers to the look-ups of one of them
   read the pattern in lock-step.
3. `exists_recognized`: a look-up that is answered is for a directive that compilation gets to.
-/

namespace LogLayout.Pattern

/-- A look-up of a run of letters, by the text behind the modifiers: the run is its beginning. -/
structure Lookup where
  behind : List Char
  deriving DecidableEq, Repr

namespace Lookup

/-- The run of letters. -/
def word (l : Lookup) : List Char :=
  l.behind.takeWhile Char.isAlpha

/-- The block behind so many letters of the run, and what is left behind it. -/
def blockBehind (l : Lookup) (letters : List Char) : OptionPart × List Char :=
  OptionPart.read (l.behind.drop letters.length)

/-- The options behind a token that the run begins with. -/
def options (l : Lookup) (token : List Char) : List String :=
  (l.blockBehind token).1.options

/-- The piece with those modifiers, and what is left behind it, by what was found for the run. -/
def reading (l : Lookup) (m : Modifiers) :
    Option (List Char × Factory) → Piece Factory × List Char
  | none => (.unknown m l.word (l.blockBehind l.word).1, (l.blockBehind l.word).2)
  | some (token, factory) =>
    (.directive ⟨m, token, factory, (l.blockBehind token).1⟩, (l.blockBehind token).2)

/-- What two tables answer to a look-up: both nothing, or the same token, whose factories reject the
options for one cause or make related converters of them. -/
def AnswersAlike (l : Lookup) (rel : Converter → Converter → Prop)
    (table other : TokenTable Factory) : Prop :=
  TokenTable.MatchAlike (fun token factory second =>
      EndsAlike rel (factory (l.options token.toList)) (second (l.options token.toList)))
    (table.longestMatch? l.word) (other.longestMatch? l.word)

end Lookup

namespace Piece

/-- The look-up that is made to read the piece that begins with `c`. -/
def lookup? (c : Char) (cs : List Char) : Option Lookup :=
  if c = '%' ∧ cs.head? ≠ some '%' ∧ ((Modifiers.read cs).2.takeWhile Char.isAlpha) ≠ [] then
    some ⟨(Modifiers.read cs).2⟩
  else none

/-- Whether the piece is a directive whose options are rejected. -/
def isRejected : Piece Factory → Bool
  | .directive d =>
    match d.value d.options.options with
    | .ok _ => false
    | .error _ => true
  | _ => false

end Piece

/-- The look-ups that are made to compile a text, in order. The parser searches their words, and no
others (`wordsOf_run`). -/
def lookups (table : TokenTable Factory) : List Char → List Lookup
  | [] => []
  | c :: cs =>
    (Piece.lookup? c cs).toList ++
      if (Piece.read table c cs).1.isRejected then []
      else lookups table (Piece.read table c cs).2
termination_by cs => cs.length
decreasing_by exact Piece.read_length table c cs

variable {table other : TokenTable Factory} {c : Char} {cs : List Char} {l : Lookup}

/-! ## Reading by answers -/

theorem Lookup.read_eq (h : Piece.lookup? c cs = some l) (table : TokenTable Factory) :
    Piece.read table c cs =
      l.reading (Modifiers.read cs).1 (table.longestMatch? l.word) := by
  unfold Piece.lookup? at h
  split at h
  · rename_i hc
    obtain ⟨rfl, hhead, hword⟩ := hc
    cases h
    have hne : cs ≠ [] := by
      rintro rfl
      exact hword rfl
    rw [Piece.read_percent hne hhead]
    unfold Piece.readDirective
    simp only [if_neg hword]
    show _ = Lookup.reading _ _ (table.longestMatch? ((Modifiers.read cs).2.takeWhile Char.isAlpha))
    cases table.longestMatch? ((Modifiers.read cs).2.takeWhile Char.isAlpha) <;> rfl
  · cases h

/-- A piece that needs no look-up is literal, and the same for every table. -/
theorem read_of_lookup?_eq_none (h : Piece.lookup? c cs = none)
    (table other : TokenTable Factory) :
    Piece.read table c cs = Piece.read other c cs ∧
      ∃ text, (Piece.read table c cs).1.literal? = some text := by
  unfold Piece.lookup? at h
  by_cases hc : c = '%'
  · subst hc
    by_cases hhead : cs.head? = some '%'
    · obtain ⟨rest, rfl⟩ : ∃ rest, cs = '%' :: rest := List.head?_eq_some_iff.mp hhead
      exact ⟨rfl, _, rfl⟩
    · cases cs with
      | nil => exact ⟨rfl, _, rfl⟩
      | cons first rest =>
        have hword : (Modifiers.read (first :: rest)).2.takeWhile Char.isAlpha = [] := by
          by_contra hword
          rw [if_pos ⟨rfl, hhead, hword⟩] at h
          cases h
        rw [Piece.read_percent (List.cons_ne_nil _ _) hhead,
          Piece.read_percent (List.cons_ne_nil _ _) hhead]
        unfold Piece.readDirective
        simp only [hword, if_pos]
        exact ⟨trivial, _, rfl⟩
  · unfold Piece.read
    rw [if_neg hc, if_neg hc]
    exact ⟨rfl, _, rfl⟩

theorem isRejected_of_literal? {piece : Piece Factory} {text : List Char}
    (h : piece.literal? = some text) : piece.isRejected = false := by
  cases piece with
  | directive d => cases h
  | plain | percent | dangling | nameless | unknown => rfl

theorem isRejected_directive {d : Directive Factory} {made : Converter}
    (h : d.value d.options.options = .ok made) : (Piece.directive d).isRejected = false := by
  unfold Piece.isRejected
  simp only [h]

theorem mem_lookups_of_lookup? (h : Piece.lookup? c cs = some l) :
    l ∈ lookups table (c :: cs) := by
  rw [lookups, h]
  exact List.mem_append_left _ List.mem_cons_self

/-- Behind a piece whose options are not rejected compilation goes on. -/
theorem mem_lookups_of_rest (h : (Piece.read table c cs).1.isRejected = false)
    (hl : l ∈ lookups table (Piece.read table c cs).2) : l ∈ lookups table (c :: cs) := by
  rw [lookups, h]
  exact List.mem_append_right _ hl

/-! ## Two tables -/

/-- Tables that answer alike to the look-ups of the first one read a text in lock-step, for as long
as a compilation reads it. -/
theorem correspond_scan {rel : Converter → Converter → Prop}
    (h : ∀ l ∈ lookups table cs, l.AnswersAlike rel table other) :
    Correspond rel (Piece.scan table cs) (Piece.scan other cs) := by
  fun_induction Piece.scan table cs with
  | case1 =>
    rw [Piece.scan]
    exact .nil
  | case2 c cs ih =>
    have hrest := fun haccepted => ih fun l hl => h l (mem_lookups_of_rest haccepted hl)
    rw [Piece.scan]
    cases hlookup : Piece.lookup? c cs with
    | none =>
      obtain ⟨hread, text, htext⟩ := read_of_lookup?_eq_none hlookup table other
      rw [← hread]
      exact .literal htext (hrest (isRejected_of_literal? htext))
    | some l =>
      have hanswers := h l (mem_lookups_of_lookup? hlookup)
      unfold Lookup.AnswersAlike at hanswers
      rw [Lookup.read_eq hlookup table] at hrest ⊢
      rw [Lookup.read_eq hlookup other]
      -- what is read next depends on both answers, which agree
      generalize table.longestMatch? l.word = found at hanswers hrest ⊢
      generalize other.longestMatch? l.word = second at hanswers ⊢
      cases hanswers with
      | none => exact .literal rfl (hrest rfl)
      | @some found second hfound =>
        obtain ⟨token, factory⟩ := found
        obtain ⟨_, second⟩ := second
        obtain ⟨rfl, halike⟩ := hfound
        rw [String.toList_ofList] at halike
        exact .directive halike fun made hmade => hrest (isRejected_directive hmade)

/-! ## Directives -/

/-- Compilation gets to the directive: the directives before it, in the cut of the pattern, have
their options accepted. -/
def Recognized (table : TokenTable Factory) (cs : List Char) (d : Directive Factory) : Prop :=
  ∃ before after, Cut table cs (before ++ .directive d :: after) ∧ AllAccepted before

theorem recognized_of_read {d : Directive Factory} (h : (Piece.read table c cs).1 = .directive d) :
    Recognized table (c :: cs) d := by
  refine ⟨[], Piece.scan table (Piece.read table c cs).2, cut_iff_scan.mpr ?_,
    fun d hd => absurd hd List.not_mem_nil⟩
  rw [Piece.scan, h, List.nil_append]

theorem Recognized.of_rest {d : Directive Factory}
    (haccepted : (Piece.read table c cs).1.isRejected = false)
    (h : Recognized table (Piece.read table c cs).2 d) : Recognized table (c :: cs) d := by
  obtain ⟨before, after, hcut, hbefore⟩ := h
  refine ⟨(Piece.read table c cs).1 :: before, after, cut_iff_scan.mpr ?_, fun other hother => ?_⟩
  · rw [Piece.scan, ← cut_iff_scan.mp hcut, List.cons_append]
  · rcases List.mem_cons.mp hother with hfirst | hrest
    · rw [← hfirst] at haccepted
      rcases other.accepted_or_rejected with h | ⟨cause, hrejected⟩
      · exact h
      · unfold Directive.Rejected at hrejected
        unfold Piece.isRejected at haccepted
        simp only [hrejected] at haccepted
        cases haccepted
    · exact hbefore other hrest

/-- A look-up that the table answers is for a directive that compilation gets to. -/
theorem exists_recognized {token : List Char} {factory : Factory} (hl : l ∈ lookups table cs)
    (hfound : table.longestMatch? l.word = some (token, factory)) :
    ∃ m, Recognized table cs ⟨m, token, factory, (l.blockBehind token).1⟩ := by
  fun_induction Piece.scan table cs with
  | case1 =>
    rw [lookups] at hl
    cases hl
  | case2 c cs ih =>
    rw [lookups] at hl
    rcases List.mem_append.mp hl with hfirst | hrest
    · have hlookup : Piece.lookup? c cs = some l := by
        rw [Option.mem_toList] at hfirst
        exact hfirst
      refine ⟨(Modifiers.read cs).1, recognized_of_read ?_⟩
      rw [Lookup.read_eq hlookup, hfound]
      rfl
    · split at hrest
      · cases hrest
      · rename_i haccepted
        obtain ⟨m, hm⟩ := ih hrest
        exact ⟨m, hm.of_rest (Bool.eq_false_iff.mpr haccepted)⟩

end LogLayout.Pattern
