import LogLayout.Proofs.Pattern.Cut

/-!
# Text behind a cut

More text behind a pattern can change what the pattern is cut into: a modifier, a word or a block at
its end may go on in it. Here is when it cannot, so that the cut of the whole is the two cuts one
behind the other.

Results:
1. `Modifiers.IsLongest.append`, `OptionPart.Stands.append`: what was read in front of some other
   text is read the same with more text behind.
2. `Piece.Stands.append`: a piece stands as before unless it waits for the text that is added.
3. `Cut.append`: two cuts one behind the other.
-/

namespace LogLayout.Pattern

variable {α : Type} {table : TokenTable α}

/-! ## What waits for more text -/

/-- The text is empty or begins with a percent sign. -/
def BeginsPiece (text : List Char) : Prop :=
  ∀ c, text.head? = some c → c = '%'

/-- No word goes on from the first text into the second. -/
def WordsApart (first second : List Char) : Prop :=
  ∀ a c, first.getLast? = some a → second.head? = some c → a.isAlpha → c.isAlpha = false

/-- There is a block, and it has ended. -/
def OptionPart.IsClosed : OptionPart → Prop
  | .block _ => True
  | _ => False

namespace Piece

/-- The piece has an end of its own: it is a character, an escape, or ends with a block. -/
def IsClosed : Piece α → Prop
  | .plain _ | .percent => True
  | .unknown _ _ options => options.IsClosed
  | .directive d => d.options.IsClosed
  | .dangling | .nameless _ => False

/-- Neither a percent sign nor the brace of a block waits for the end of the pattern. -/
def IsFinished : Piece α → Prop
  | .dangling => False
  | .unknown _ _ options => options ≠ .unterminated
  | .directive d => d.options ≠ .unterminated
  | _ => True

end Piece

variable {m : Modifiers} {options : OptionPart} {piece : Piece α} {word cs rest more : List Char}

theorem BeginsPiece.not_isAlpha (h : BeginsPiece more) (c : Char) (hc : more.head? = some c) :
    c.isAlpha = false := by
  rw [h c hc]
  rfl

theorem BeginsPiece.stopsModifiers (h : BeginsPiece more) : StopsModifiers more := by
  intro c hc
  rw [h c hc]
  decide

/-! ## Runs and modifiers -/

theorem IsRun.append {p : Char → Bool} {run : List Char} (h : IsRun p run rest)
    (hmore : rest = [] → ∀ c, more.head? = some c → p c = false) : IsRun p run (rest ++ more) := by
  refine ⟨h.all, fun c hc => ?_⟩
  cases rest with
  | nil => exact hmore rfl c hc
  | cons first rest => exact h.stop c hc

theorem IsRun.append_word (h : IsRun Char.isAlpha word rest) (hne : word ≠ [])
    (hapart : WordsApart (cs ++ (word ++ rest)) more) : IsRun Char.isAlpha word (rest ++ more) := by
  refine h.append fun hrest c hc => ?_
  -- the word is the end of the text, so its last letter is the last character
  have hlast : (cs ++ (word ++ rest)).getLast? = some (word.getLast hne) := by
    rw [hrest, List.append_nil, List.getLast?_append, List.getLast?_eq_some_getLast hne]
    rfl
  exact hapart _ c hlast hc (h.all _ (List.getLast_mem hne))

theorem readDash_append_of_ne_nil (hne : cs ≠ []) (more : List Char) :
    readDash (cs ++ more) = ((readDash cs).1, (readDash cs).2 ++ more) := by
  obtain ⟨c, cs, rfl⟩ := List.exists_cons_of_ne_nil hne
  by_cases hc : c = '-'
  · subst hc
    rfl
  · have hhead : ∀ behind : List Char, (c :: behind).head? ≠ some '-' := fun _ h =>
      hc (Option.some.inj h)
    rw [readDash_of_head (hhead cs), List.cons_append, readDash_of_head (hhead (cs ++ more))]

theorem readDigits_append_of_ne_nil (hne : (readDigits cs).2 ≠ []) (more : List Char) :
    readDigits (cs ++ more) = ((readDigits cs).1, (readDigits cs).2 ++ more) := by
  have hrun : IsRun Char.isDigit (readDigits cs).1 ((readDigits cs).2 ++ more) :=
    (isRun_takeWhile Char.isDigit cs).append fun hnil => absurd hnil hne
  rw [← readDigits_append_of_isRun hrun, ← List.append_assoc, readDigits_append]

theorem MaximumText.read_append_of_ne_nil (hne : (read cs).2 ≠ []) (more : List Char) :
    read (cs ++ more) = ((read cs).1, (read cs).2 ++ more) := by
  have hcs : cs ≠ [] := by
    rintro rfl
    exact hne rfl
  have hdigits : readDigits ((readDash cs).2 ++ more) =
      ((readDigits (readDash cs).2).1, (readDigits (readDash cs).2).2 ++ more) :=
    readDigits_append_of_ne_nil hne more
  unfold read
  simp only [readDash_append_of_ne_nil hcs, hdigits]

theorem Modifiers.read_append_of_ne_nil (hne : (read cs).2 ≠ []) (more : List Char) :
    read (cs ++ more) = ((read cs).1, (read cs).2 ++ more) := by
  have hcs : cs ≠ [] := by
    rintro rfl
    exact hne rfl
  have hdash := readDash_append_of_ne_nil hcs more
  by_cases hpoint : (readDigits (readDash cs).2).2.head? = some '.'
  · obtain ⟨behind, hbehind⟩ := List.head?_eq_some_iff.mp hpoint
    have hdigits := readDigits_append_of_ne_nil
      (show (readDigits (readDash cs).2).2 ≠ [] by rw [hbehind]; exact List.cons_ne_nil _ _) more
    unfold read at hne ⊢
    simp only [hbehind] at hne
    simp only [hdash, hdigits, hbehind, List.cons_append,
      MaximumText.read_append_of_ne_nil hne more]
  · rw [read_no_point hpoint] at hne ⊢
    have hdigits := readDigits_append_of_ne_nil hne more
    rw [read_no_point]
    · rw [hdash, hdigits]
    · rw [hdash, hdigits, List.head?_append]
      intro hhead
      rcases Option.or_eq_some_iff.mp hhead with hfirst | ⟨hfirst, _⟩
      · exact hpoint hfirst
      · exact hne (List.head?_eq_none_iff.mp hfirst)

theorem Modifiers.IsLongest.append (h : m.IsLongest rest) (hmore : rest = [] → BeginsPiece more) :
    m.IsLongest (rest ++ more) := by
  cases rest with
  | nil => exact (read_eq_iff.mp (read_append h.wellFormed (hmore rfl).stopsModifiers)).2
  | cons c rest =>
    have hread := read_eq_iff.mpr ⟨rfl, h⟩
    have hmore := read_append_of_ne_nil (by rw [hread]; exact List.cons_ne_nil c rest) more
    rw [hread, List.append_assoc] at hmore
    exact (read_eq_iff.mp hmore).2

/-! ## Pieces -/

theorem OptionPart.Stands.append (h : options.Stands rest) (hfinished : options ≠ .unterminated)
    (hmore : rest = [] → options.IsClosed ∨ BeginsPiece more) : options.Stands (rest ++ more) := by
  cases h with
  | absent hhead =>
    refine .absent fun hbrace => ?_
    cases rest with
    | nil =>
      have hpercent := ((hmore rfl).resolve_left id) '{' hbrace
      exact absurd hpercent (by decide)
    | cons c rest => exact hhead hbrace
  | unterminated _ _ => exact absurd rfl hfinished
  | block hblock => exact .block hblock

theorem Piece.Stands.append (h : piece.Stands table rest) (hfinished : piece.IsFinished)
    (hmore : rest = [] → piece.IsClosed ∨ BeginsPiece more)
    (hapart : WordsApart (piece.source ++ rest) more) : piece.Stands table (rest ++ more) := by
  cases h with
  | plain hc => exact .plain hc
  | percent => exact .percent
  | dangling => exact absurd hfinished id
  | @nameless m rest hne hhead hm hrest =>
    have hbegins : rest = [] → BeginsPiece more := fun hnil => (hmore hnil).resolve_left id
    obtain ⟨c, cs, hsource⟩ := List.exists_cons_of_ne_nil hne
    rw [hsource] at hhead
    refine .nameless ?_ ?_ (hm.append hbegins) (hrest.append fun hnil => (hbegins hnil).not_isAlpha)
    · rw [← List.append_assoc, hsource]
      exact List.cons_ne_nil _ _
    · rw [← List.append_assoc, hsource]
      exact hhead
  | @unknown m word rest options hm hne hword hunbound hoptions =>
    have hsource : (Piece.unknown m word options : Piece α).source ++ rest =
        '%' :: m.source ++ (word ++ (options.source ++ rest)) := by
      simp only [source, List.cons_append, List.append_assoc]
    rw [hsource] at hapart
    refine .unknown ?_ hne ?_ hunbound (hoptions.append hfinished hmore)
    · have hlongest : m.IsLongest (word ++ (options.source ++ rest) ++ more) :=
        hm.append fun hnil => absurd (List.append_eq_nil_iff.mp hnil).1 hne
      rwa [List.append_assoc, List.append_assoc] at hlongest
    · have hrun := hword.append_word hne hapart
      rwa [List.append_assoc] at hrun
  | @directive d letters behind rest hm hbehind hword hlongest hoptions =>
    have hne : d.token ++ letters ≠ [] :=
      fun hnil => hlongest.ne_nil (List.append_eq_nil_iff.mp hnil).1
    have hsource : (Piece.directive d).source ++ rest =
        '%' :: d.modifiers.source ++ (d.token ++ letters ++ behind) := by
      simp only [source, Directive.source, List.cons_append, List.append_assoc, hbehind]
    rw [hsource] at hapart
    refine .directive ?_ ?_ (hword.append_word hne hapart) hlongest
      (hoptions.append hfinished hmore)
    · have happend : d.modifiers.IsLongest (d.token ++ (d.options.source ++ rest) ++ more) :=
        hm.append fun hnil => absurd (List.append_eq_nil_iff.mp hnil).1 hlongest.ne_nil
      rwa [List.append_assoc, List.append_assoc] at happend
    · rw [← List.append_assoc, hbehind, List.append_assoc]

/-! ## Cuts -/

theorem WordsApart.of_append (h : WordsApart (cs ++ rest) more) : WordsApart rest more := by
  intro a c ha
  refine h a c ?_
  rw [List.getLast?_append, ha]
  rfl

theorem Cut.eq_nil {pieces : List (Piece α)} (h : Cut table [] pieces) : pieces = [] := by
  rw [cut_iff_scan.mp h, Piece.scan]

/-- The cut of a text that is put behind another one is the two cuts, unless the last piece of the
first text waits for what follows. -/
theorem Cut.append {pieces others : List (Piece α)} (h : Cut table cs pieces)
    (hfinished : ∀ piece ∈ pieces, piece.IsFinished)
    (hlast : ∀ piece, pieces.getLast? = some piece → piece.IsClosed ∨ BeginsPiece more)
    (hapart : WordsApart cs more) (hmore : Cut table more others) :
    Cut table (cs ++ more) (pieces ++ others) := by
  induction h with
  | nil => exact hmore
  | @cons piece rest pieces hstands hcut ih =>
    obtain ⟨hpiece, hpieces⟩ := List.forall_mem_cons.mp hfinished
    rw [List.append_assoc]
    -- only the last piece has nothing behind it
    refine .cons (hstands.append hpiece (fun hnil => ?_) hapart)
      (ih hpieces (fun last hgiven => hlast last ?_) hapart.of_append)
    · subst hnil
      rw [hcut.eq_nil] at hlast
      exact hlast piece rfl
    · rw [List.getLast?_cons, hgiven]
      rfl

end LogLayout.Pattern
