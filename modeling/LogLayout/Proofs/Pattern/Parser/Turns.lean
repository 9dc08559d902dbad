import LogLayout.Proofs.Pattern.Parser.Parts

/-!
# Turns of the parser

A turn of the main loop takes the piece that stands at the parser's position, and all turns together
take the pieces of the one cut, up to the first directive that is rejected.

Results:
1. `runs_turn`: what a turn makes of the piece at its position.
2. `runs_run`: what the loop makes of a pattern.
-/

namespace LogLayout.Pattern

open Text (byteLength)

variable {pattern : String} {parser middle after : Parser} {before cs rest : List Char}
  {table : TokenTable Factory}

/-! ## Turns -/

/-- What the parser at the position before a piece makes of it. -/
def Parser.absorb (parser : Parser) (before : List Char) (piece : Piece Factory) : Turn × Parser :=
  let read := (parser.warned (piece.warnings (byteLength before))).behind (before ++ piece.source)
  match piece with
  | .directive d =>
    match d.value d.options.options with
    | .ok converter => (.goesOn, read.flush.push ⟨converter, d.modifiers.specifier⟩)
    | .error cause => (.rejects ⟨String.ofList d.token, byteLength before, cause⟩, read)
  | .percent => (.goesOn, read.write "%")
  | piece => (.goesOn, read.write (String.ofList piece.source))

section

variable {d : Directive Factory} {converter : Converter} {cause : Report}

theorem Parser.absorb_of_ok (parser : Parser) (before : List Char)
    (h : d.value d.options.options = .ok converter) :
    parser.absorb before (.directive d) =
      (.goesOn, ((parser.warned ((Piece.directive d).warnings (byteLength before))).behind
        (before ++ (Piece.directive d).source)).flush.push
          ⟨converter, d.modifiers.specifier⟩) := by
  unfold absorb
  dsimp only
  rw [h]

theorem Parser.absorb_of_error (parser : Parser) (before : List Char)
    (h : d.value d.options.options = .error cause) :
    parser.absorb before (.directive d) =
      (.rejects ⟨String.ofList d.token, byteLength before, cause⟩,
        (parser.warned ((Piece.directive d).warnings (byteLength before))).behind
          (before ++ (Piece.directive d).source)) := by
  unfold absorb
  dsimp only
  rw [h]

end

theorem Modifiers.IsLongest.stands {m : Modifiers} (h : m.IsLongest rest) : m.Stands rest := by
  have hstands := Modifiers.stands_read (m.source ++ rest)
  rwa [Modifiers.read_eq_iff.mpr ⟨rfl, h⟩] at hstands

theorem runs_keep {source : List Char} {problem : Problem}
    (h : pattern.toList = before ++ (source ++ rest)) :
    Runs pattern (Parse.keep pattern (byteLength before) problem)
      (parser.behind (before ++ source)) .goesOn
      (((parser.warned [⟨byteLength before, problem⟩]).behind (before ++ source)).write
        (String.ofList source)) :=
  .bind runs_position (.bind (runs_slice h rfl) (.bind runs_write (.bind runs_warn .pure)))

theorem runs_word (parser : Parser) {word : List Char}
    (h : pattern.toList = before ++ (word ++ rest)) (hword : IsRun Char.isAlpha word rest) :
    Runs pattern (Parse.word pattern) (parser.behind before) (byteLength before, String.ofList word)
      (parser.behind (before ++ word)) :=
  .bind runs_position (.bind (runs_skipWhile (fun _ => utf8Size_of_isAlpha) hword h)
    (.bind runs_position (.bind (runs_slice h rfl) .pure)))

/-- Up to the end of the letters all directives are read alike. -/
theorem runs_directive {m : Modifiers} {word : List Char} {turn : Turn}
    (h : pattern.toList = before ++ '%' :: (m.source ++ (word ++ rest)))
    (hm : m.IsLongest (word ++ rest)) (hword : IsRun Char.isAlpha word rest)
    (hresolve : Runs pattern
      (Parse.resolve table pattern (byteLength before) m.specifier
        (byteLength (before ++ '%' :: m.source)) (String.ofList word))
      ((parser.warned (m.warnings (byteLength before + 1))).behind
        (before ++ '%' :: (m.source ++ word))) turn after) :
    Runs pattern (Parse.directive table pattern (byteLength before))
      (parser.behind (before ++ ['%'])) turn after := by
  have hmodifiers : pattern.toList = (before ++ ['%']) ++ (m.source ++ (word ++ rest)) := by
    rw [h, List.append_cons]
  have hletters : pattern.toList = (before ++ '%' :: m.source) ++ (word ++ rest) := by
    rw [h, List.append_assoc, List.cons_append]
  have hstart := runs_modifiers parser hmodifiers hm.stands
  rw [← List.append_cons, ← byteLength_concat rfl] at hstart
  have hname := runs_word (parser.warned (m.warnings (byteLength before + 1))) hletters hword
  rw [List.append_assoc, List.cons_append] at hname
  exact .bind hstart (.bind hname hresolve)

/-- A percent sign that neither ends the pattern nor stands before another one. -/
theorem runs_turn_percent {turn : Turn} (h : pattern.toList = before ++ '%' :: cs)
    (hhead : ∃ c, cs.head? = some c ∧ c ≠ '%')
    (hdirective : Runs pattern (Parse.directive table pattern (byteLength before))
      (parser.behind (before ++ ['%'])) turn after) :
    Runs pattern (Parse.turn table pattern) (parser.behind before) turn after := by
  have hbehind : pattern.toList = (before ++ ['%']) ++ cs := by rw [h, List.append_cons]
  obtain ⟨c, hhead, hc⟩ := hhead
  unfold Parse.turn
  refine .bind (runs_peek h) (.bind runs_position ?_)
  rw [if_pos rfl]
  refine .bind (runs_moveTo hbehind (byteLength_concat rfl)) (.bind (runs_peek hbehind) ?_)
  rw [hhead]
  show Runs _ (if c = '%' then _ else _) _ _ _
  rw [if_neg hc]
  exact hdirective

theorem runs_turn_nameless {m : Modifiers}
    (h : pattern.toList = before ++ ((Piece.nameless m : Piece Factory).source ++ rest))
    (hhead : ∃ c, (m.source ++ rest).head? = some c ∧ c ≠ '%') (hm : m.IsLongest rest)
    (hrest : IsRun Char.isAlpha [] rest) :
    Runs pattern (Parse.turn table pattern) (parser.behind before)
      (parser.absorb before (.nameless m)).1 (parser.absorb before (.nameless m)).2 := by
  have hall : pattern.toList = before ++ '%' :: (m.source ++ ([] ++ rest)) := h
  refine runs_turn_percent h hhead (runs_directive hall hm hrest ?_)
  unfold Parse.resolve Parser.absorb
  rw [if_pos rfl, List.append_nil]
  dsimp only [Piece.warnings, Piece.source]
  rw [← Parser.warned_warned]
  exact runs_keep h

theorem byteLength_percent (before text : List Char) :
    byteLength (before ++ '%' :: text) = byteLength before + 1 + byteLength text := by
  rw [Text.byteLength_append, Text.byteLength_cons, ← Nat.add_assoc]
  rfl

/-- The options behind a name, and what is warned of up to their end. -/
theorem runs_options_named (parser : Parser) {m : Modifiers} {name : List Char}
    {options : OptionPart}
    (h : pattern.toList = before ++ '%' :: (m.source ++ (name ++ (options.source ++ rest))))
    (hoptions : options.Stands rest) :
    Runs pattern (Parse.options pattern)
      ((parser.warned (m.warnings (byteLength before + 1))).behind
        (before ++ '%' :: (m.source ++ name))) options.options
      ((parser.warned (namedWarnings (byteLength before) m name options)).behind
        (before ++ '%' :: (m.source ++ name ++ options.source))) := by
  have hblock : pattern.toList =
      (before ++ '%' :: (m.source ++ name)) ++ (options.source ++ rest) := by
    rw [h, List.append_assoc, List.cons_append, List.append_assoc]
  have hread := runs_options (parser.warned (m.warnings (byteLength before + 1))) hblock hoptions
  rw [Parser.warned_warned, byteLength_percent, List.append_assoc before, List.cons_append] at hread
  exact hread

theorem runs_turn_unknown {m : Modifiers} {word : List Char} {options : OptionPart}
    (h : pattern.toList = before ++ ((Piece.unknown m word options : Piece Factory).source ++ rest))
    (hm : m.IsLongest (word ++ (options.source ++ rest))) (hne : word ≠ [])
    (hword : IsRun Char.isAlpha word (options.source ++ rest))
    (hmatch : table.longestMatch? word = none) (hoptions : options.Stands rest) :
    Runs pattern (Parse.turn table pattern) (parser.behind before)
      (parser.absorb before (.unknown m word options)).1
      (parser.absorb before (.unknown m word options)).2 := by
  have hall : pattern.toList =
      before ++ '%' :: (m.source ++ (word ++ (options.source ++ rest))) := by
    rw [h]
    simp only [Piece.source, List.cons_append, List.append_assoc]
  have hname : pattern.toList =
      (before ++ '%' :: m.source) ++ (word ++ (options.source ++ rest)) := by
    rw [hall, List.append_assoc, List.cons_append]
  refine runs_turn_percent hall (Piece.head?_modifiers_word hm.wellFormed hne hword.all)
    (runs_directive hall hm hword ?_)
  unfold Parse.resolve Parser.absorb
  rw [if_neg (ofList_ne_empty hne)]
  refine .bind (runs_longestMatch hname hne hword.all) ?_
  rw [hmatch]
  refine .bind (runs_options_named parser hall hoptions) ?_
  rw [String.toList_ofList]
  dsimp only [Piece.warnings]
  rw [← Parser.warned_warned]
  exact runs_keep h

theorem runs_turn_directive {d : Directive Factory} {more behind : List Char}
    (h : pattern.toList = before ++ ((Piece.directive d).source ++ rest))
    (hm : d.modifiers.IsLongest (d.token ++ (d.options.source ++ rest)))
    (hbehind : d.options.source ++ rest = more ++ behind)
    (hword : IsRun Char.isAlpha (d.token ++ more) behind)
    (hlongest : table.IsLongestMatch (d.token ++ more) d.token d.value)
    (hoptions : d.options.Stands rest) :
    Runs pattern (Parse.turn table pattern) (parser.behind before)
      (parser.absorb before (.directive d)).1 (parser.absorb before (.directive d)).2 := by
  have htoken : pattern.toList =
      before ++ '%' :: (d.modifiers.source ++ (d.token ++ (d.options.source ++ rest))) := by
    rw [h]
    simp only [Piece.source, Directive.source, List.cons_append, List.append_assoc]
  have hall : pattern.toList =
      before ++ '%' :: (d.modifiers.source ++ ((d.token ++ more) ++ behind)) := by
    rw [htoken, hbehind, List.append_assoc]
  have hname : pattern.toList =
      (before ++ '%' :: d.modifiers.source) ++ ((d.token ++ more) ++ behind) := by
    rw [hall, List.append_assoc before, List.cons_append]
  have hback : pattern.toList =
      (before ++ '%' :: (d.modifiers.source ++ d.token)) ++ (d.options.source ++ rest) := by
    rw [htoken, List.append_assoc, List.cons_append, List.append_assoc]
  have hne : d.token ++ more ≠ [] := fun hnil =>
    hlongest.ne_nil (List.append_eq_nil_iff.mp hnil).1
  rw [hbehind, ← List.append_assoc] at hm
  refine runs_turn_percent hall (Piece.head?_modifiers_word hm.wellFormed hne hword.all)
    (runs_directive hall hm hword ?_)
  unfold Parse.resolve
  rw [if_neg (ofList_ne_empty hne)]
  refine .bind (runs_longestMatch hname hne hword.all) ?_
  rw [TokenTable.longestMatch?_eq_some_iff.mpr hlongest]
  refine .bind (runs_moveTo hback ?_) ?_
  · rw [Text.utf8ByteSize_ofList, ← Text.byteLength_append, List.append_assoc, List.cons_append]
  · unfold Parse.build Parser.absorb
    refine .bind (runs_options_named parser htoken hoptions) ?_
    dsimp only
    cases d.value d.options.options with
    | ok converter => exact .bind runs_flush_push .pure
    | error cause => exact .pure

/-- The parser at a piece makes of it what `absorb` says. -/
theorem runs_turn (parser : Parser) {piece : Piece Factory}
    (h : pattern.toList = before ++ (piece.source ++ rest))
    (hpiece : piece.Stands table rest) :
    Runs pattern (Parse.turn table pattern) (parser.behind before)
      (parser.absorb before piece).1 (parser.absorb before piece).2 := by
  cases hpiece with
  | @plain c rest hc =>
    have hnext : pattern.toList = (before ++ [c]) ++ rest := by
      rw [h, List.append_assoc]
      rfl
    unfold Parse.turn Parser.absorb
    refine .bind (runs_peek h) (.bind runs_position ?_)
    show Runs _ (if c = '%' then _ else _) _ _ _
    rw [if_neg hc, Piece.warnings, Parser.warned_nil]
    refine .bind runs_write (.bind (runs_moveTo hnext ?_) .pure)
    rw [Text.byteLength_append, Text.byteLength_cons]
    rfl
  | @percent rest =>
    have hnext : pattern.toList = (before ++ ['%']) ++ '%' :: rest := by
      rw [h, List.append_assoc]
      rfl
    have hbehind : pattern.toList = (before ++ ['%', '%']) ++ rest := by
      rw [h, List.append_assoc]
      rfl
    unfold Parse.turn Parser.absorb
    refine .bind (runs_peek h) (.bind runs_position ?_)
    show Runs _ (if '%' = '%' then _ else _) _ _ _
    rw [if_pos rfl, Piece.warnings, Parser.warned_nil]
    refine .bind (runs_moveTo hnext (byteLength_concat rfl)) (.bind (runs_peek hnext) ?_)
    show Runs _ (if '%' = '%' then _ else _) _ _ _
    rw [if_pos rfl]
    refine .bind runs_position (.bind (runs_moveTo hbehind ?_) (.bind runs_write .pure))
    rw [List.append_cons before '%' ['%']]
    exact byteLength_concat rfl
  | dangling =>
    have hnext : pattern.toList = (before ++ ['%']) ++ [] := by
      rw [h, List.append_assoc]
      rfl
    unfold Parse.turn Parser.absorb
    refine .bind (runs_peek h) (.bind runs_position ?_)
    show Runs _ (if '%' = '%' then _ else _) _ _ _
    rw [if_pos rfl]
    exact .bind (runs_moveTo hnext (byteLength_concat rfl)) (.bind (runs_peek hnext)
      (.bind runs_write (.bind runs_warn .pure)))
  | nameless hne hhead hm hrest =>
    obtain ⟨c, behind, hcs⟩ := List.exists_cons_of_ne_nil hne
    rw [hcs] at hhead
    exact runs_turn_nameless h ⟨c, by rw [hcs]; rfl, fun hc => hhead (congrArg some hc)⟩ hm hrest
  | unknown hm hne hword hunbound hoptions =>
    exact runs_turn_unknown h hm hne hword (TokenTable.longestMatch?_eq_none_iff.mpr hunbound)
      hoptions
  | directive hm hbehind hword hlongest hoptions =>
    exact runs_turn_directive h hm hbehind hword hlongest hoptions

theorem runs_turn_end (parser : Parser) (h : pattern.toList = before) :
    Runs pattern (Parse.turn table pattern) (parser.behind before) .ends
      (parser.behind before) := by
  have hend : pattern.toList = before ++ [] := by rw [h, List.append_nil]
  unfold Parse.turn
  exact .bind (runs_peek hend) .pure

/-! ## The loop -/

/-- What the parser at the position before pieces makes of them, up to the first that is
rejected. -/
def Parser.absorbAll (parser : Parser) (before : List Char) :
    List (Piece Factory) → Turn × Parser
  | [] => (.ends, parser.behind before)
  | piece :: pieces =>
    match parser.absorb before piece with
    | (.goesOn, next) => next.absorbAll (before ++ piece.source) pieces
    | stopped => stopped

theorem Parser.flush_position (parser : Parser) : parser.flush.position = parser.position := by
  unfold flush
  split <;> rfl

theorem Parser.absorb_position (parser : Parser) (before : List Char) (piece : Piece Factory) :
    (parser.absorb before piece).2.position = byteLength (before ++ piece.source) := by
  cases piece with
  | directive d =>
    cases hvalue : d.value d.options.options with
    | ok converter =>
      rw [absorb_of_ok parser before hvalue]
      exact flush_position _
    | error cause => rw [absorb_of_error parser before hvalue]; rfl
  | _ => rfl

theorem Parser.behind_of_position (h : parser.position = byteLength before) :
    parser.behind before = parser := by
  unfold behind
  rw [← h]

/-- A turn that stops is the last one. -/
theorem Runs.run_eq_turn {turn : Turn}
    (hturn : Runs pattern (Parse.turn table pattern) parser turn after) (hstops : turn ≠ .goesOn)
    (accesses : List Access) :
    Parse.run table pattern { parser with accesses := accesses } =
      Parse.turn table pattern { parser with accesses := accesses } := by
  obtain ⟨more, hmore, -⟩ := hturn accesses
  rw [Parse.run, hmore]
  cases turn with
  | goesOn => exact absurd rfl hstops
  | ends => rfl
  | rejects e => rfl

theorem run_eq_turn_of_end (parser : Parser) (h : pattern.toList = before)
    (accesses : List Access) :
    Parse.run table pattern { parser.behind before with accesses := accesses } =
      Parse.turn table pattern { parser.behind before with accesses := accesses } :=
  (runs_turn_end parser h).run_eq_turn (by rintro ⟨⟩) accesses

/-- Behind a piece that is not rejected the loop takes more turns. -/
theorem run_eq_bind {piece : Piece Factory} (h : pattern.toList = before ++ (piece.source ++ rest))
    (hpiece : piece.Stands table rest) (hgoesOn : parser.absorb before piece = (.goesOn, after))
    (accesses : List Access) :
    Parse.run table pattern { parser.behind before with accesses := accesses } =
      (Parse.turn table pattern >>= fun _ => Parse.run table pattern)
        { parser.behind before with accesses := accesses } := by
  obtain ⟨more, hmore, -⟩ := runs_turn parser h hpiece accesses
  have hposition := parser.absorb_position before piece
  rw [hgoesOn] at hmore hposition
  have hlt : byteLength before < after.position := by
    rw [hposition]
    exact byteLength_lt_append_iff.mpr (List.ne_nil_of_length_pos piece.source_length_pos)
  have hle : after.position ≤ pattern.utf8ByteSize := by
    rw [← List.append_assoc] at h
    rw [hposition]
    exact (soundPosition_of_append h).1
  show _ = (Parse.turn table pattern _).bind _
  rw [Parse.run, hmore]
  exact if_pos ⟨hlt, hle⟩

theorem runs_run (parser : Parser) {pieces : List (Piece Factory)} (hcut : Cut table cs pieces)
    (h : pattern.toList = before ++ cs) :
    Runs pattern (Parse.run table pattern) (parser.behind before)
      (parser.absorbAll before pieces).1 (parser.absorbAll before pieces).2 := by
  induction hcut generalizing before parser with
  | nil =>
    rw [List.append_nil] at h
    exact .congr (run_eq_turn_of_end parser h) (runs_turn_end parser h)
  | @cons piece rest pieces hpiece hcut ih =>
    have hturn := runs_turn parser h hpiece
    rw [Parser.absorbAll]
    rcases habsorb : parser.absorb before piece with ⟨turn, next⟩
    rw [habsorb] at hturn
    cases turn with
    | goesOn =>
      have hposition := parser.absorb_position before piece
      have hbehind : pattern.toList = (before ++ piece.source) ++ rest := by
        rw [h, List.append_assoc]
      have hrest := ih next hbehind
      rw [habsorb] at hposition
      rw [Parser.behind_of_position hposition] at hrest
      exact .congr (run_eq_bind h hpiece habsorb) (hturn.bind hrest)
    | ends | rejects => exact .congr (hturn.run_eq_turn (by rintro ⟨⟩)) hturn

end LogLayout.Pattern
