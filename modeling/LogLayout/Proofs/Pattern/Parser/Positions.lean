import LogLayout.Proofs.Pattern.Parser.Outcome
import Mathlib

/-!
# The position of the parser

The parser moves on by single bytes, by the widths of characters and to the ends of blocks, and it
moves back to the end of a token. None of these moves leaves the pattern or ends inside a character,
whatever the pattern and the bound tokens are, and each turn gets on.

Results:
1. `turn_of_sound`: a turn goes well wherever the position is sound, and ends only at the end.
2. `exists_last_turn`: the loop stops, with a turn that it takes itself.
3. At the end of the file: the positions and accesses of all turns, and where the loop stops.
-/

namespace LogLayout.Pattern

open Text (byteLength)

/-- The parsers that the loop takes its turns with. -/
inductive Reached (table : TokenTable Factory) (pattern : String) : Parser → Prop where
  | start : Reached table pattern {}
  | turn {parser next : Parser} :
    Reached table pattern parser → Parse.turn table pattern parser = some (.goesOn, next) →
    Reached table pattern next

/-- The position is sound, and so was everything that was done with the pattern up to here. -/
structure Parser.Sound (pattern : String) (parser : Parser) : Prop where
  position : SoundPosition pattern parser.position
  accesses : ∀ access ∈ parser.accesses, access.Sound pattern

variable {α : Type} {table : TokenTable Factory} {pattern : String} {parser after : Parser}
  {result : α}

theorem Parser.sound_start (pattern : String) : ({} : Parser).Sound pattern where
  position := soundPosition_of_append (List.nil_append pattern.toList).symm
  accesses := fun _ h => absurd h List.not_mem_nil

theorem Runs.sound {work : Parse α} (hruns : Runs pattern work parser result after)
    (hparser : parser.Sound pattern) (hafter : SoundPosition pattern after.position) :
    ∃ next, work parser = some (result, next) ∧ next.Sound pattern ∧
      next.position = after.position := by
  obtain ⟨more, hwork, hmore⟩ := hruns parser.accesses
  refine ⟨{ after with accesses := more ++ parser.accesses }, hwork, ⟨hafter, ?_⟩, rfl⟩
  intro access haccess
  rcases List.mem_append.mp haccess with haccess | haccess
  · exact hmore access haccess
  · exact hparser.accesses access haccess

theorem Parser.absorb_ne_ends (parser : Parser) (before : List Char) (piece : Piece Factory) :
    (parser.absorb before piece).1 ≠ .ends := by
  cases piece with
  | directive d =>
    cases hvalue : d.value d.options.options with
    | ok converter =>
      rw [parser.absorb_of_ok before hvalue]
      rintro ⟨⟩
    | error cause =>
      rw [parser.absorb_of_error before hvalue]
      rintro ⟨⟩
  | _ => rintro ⟨⟩

/-! ## One turn -/

/-- A turn at a sound position leaves the parser at another one. At the end of the pattern it ends
the loop, and everywhere else it gets on. -/
theorem turn_of_sound (table : TokenTable Factory) (h : parser.Sound pattern) :
    ∃ turn next, Parse.turn table pattern parser = some (turn, next) ∧ next.Sound pattern ∧
      (turn = .ends ∧ parser.position = pattern.utf8ByteSize ∧
          next.position = pattern.utf8ByteSize ∨
        turn ≠ .ends ∧ parser.position < next.position) := by
  obtain ⟨before, cs, hpattern, hposition⟩ := Text.exists_append_of_isValid h.position.2
  have hbehind : parser.behind before = parser := Parser.behind_of_position hposition
  cases cs with
  | nil =>
    have hbefore : pattern.toList = before := by rw [hpattern, List.append_nil]
    have hruns : Runs pattern (Parse.turn table pattern) (parser.behind before) .ends
        (parser.behind before) := runs_turn_end parser hbefore
    rw [hbehind] at hruns
    obtain ⟨next, hturn, hsound, hnext⟩ := hruns.sound h h.position
    have hend : parser.position = pattern.utf8ByteSize := by
      rw [hposition, ← hbefore, Text.byteLength_toList]
    exact ⟨.ends, next, hturn, hsound, .inl ⟨rfl, hend, hnext.trans hend⟩⟩
  | cons c cs =>
    -- the turn takes the piece that stands here
    obtain ⟨piece, rest, hread⟩ : ∃ piece rest, Piece.read table c cs = (piece, rest) := ⟨_, _, rfl⟩
    have hstands := Piece.read_stands table c cs
    have hsource := Piece.read_source table c cs
    rw [hread] at hstands hsource
    rw [← hsource] at hpattern
    have hruns := runs_turn parser hpattern hstands
    have hafter := parser.absorb_position before piece
    rw [hbehind] at hruns
    rw [← List.append_assoc] at hpattern
    obtain ⟨next, hturn, hsound, hnext⟩ := hruns.sound h (by
      rw [hafter]
      exact soundPosition_of_append hpattern)
    refine ⟨_, next, hturn, hsound, .inr ⟨parser.absorb_ne_ends before piece, ?_⟩⟩
    rw [hposition, hnext, hafter]
    exact byteLength_lt_append_iff.mpr (List.ne_nil_of_length_pos piece.source_length_pos)

theorem Reached.sound (h : Reached table pattern parser) : parser.Sound pattern := by
  induction h with
  | start => exact Parser.sound_start pattern
  | turn _ hturn ih =>
    obtain ⟨_, _, hresult, hsound, _⟩ := turn_of_sound table ih
    rw [hturn] at hresult
    cases hresult
    exact hsound

/-! ## All turns -/

/-- The loop comes to what its last turn comes to. -/
theorem exists_last_turn {parser : Parser} (h : Reached table pattern parser) :
    ∃ last turn after, Reached table pattern last ∧
      Parse.turn table pattern last = some (turn, after) ∧ turn ≠ .goesOn ∧
      Parse.run table pattern parser = some (turn, after) := by
  obtain ⟨turn, next, hturn, hsound, hgets⟩ := turn_of_sound table h.sound
  cases turn with
  | goesOn =>
    have hlt : parser.position < next.position := by
      rcases hgets with ⟨hends, _⟩ | ⟨_, hlt⟩
      · cases hends
      · exact hlt
    have hle := hsound.position.1
    obtain ⟨last, turn, after, hlast, hresult, hstops, hrun⟩ :=
      exists_last_turn (h.turn hturn)
    refine ⟨last, turn, after, hlast, hresult, hstops, ?_⟩
    rw [Parse.run, hturn]
    exact (if_pos ⟨hlt, hle⟩).trans hrun
  | ends =>
    refine ⟨parser, .ends, next, h, hturn, by rintro ⟨⟩, ?_⟩
    rw [Parse.run, hturn]
  | rejects e =>
    refine ⟨parser, .rejects e, next, h, hturn, by rintro ⟨⟩, ?_⟩
    rw [Parse.run, hturn]
termination_by pattern.utf8ByteSize - parser.position
decreasing_by omega

/-- The parser is always sound. Take any turn of the loop, for any pattern and any bindings. The
position before it is in the pattern and between characters. The turn has a result; the position
behind it is sound as well; and so is every move, slice and number, and every word that is searched
for a token, up to there. The turn ends the loop at the end of the pattern and gets on everywhere
else. And the loop stops: either a directive is rejected, or the pattern compiles and has been read
to its end. -/
theorem parser_always_sound (table : TokenTable Factory) (pattern : String) :
    (∀ parser, Reached table pattern parser →
      parser.Sound pattern ∧
      ∃ turn next, Parse.turn table pattern parser = some (turn, next) ∧ next.Sound pattern ∧
        (turn = .ends ∧ parser.position = pattern.utf8ByteSize ∧
            next.position = pattern.utf8ByteSize ∨
          turn ≠ .ends ∧ parser.position < next.position)) ∧
    ∃ parser turn last, Reached table pattern parser ∧
      Parse.turn table pattern parser = some (turn, last) ∧
      Parse.run table pattern {} = some (turn, last) ∧
      ((∃ e, turn = .rejects e ∧ compile table pattern = .error e) ∨
        turn = .ends ∧ last.position = pattern.utf8ByteSize ∧
          compile table pattern = .ok last.compiled) := by
  refine ⟨fun parser h => ⟨h.sound, turn_of_sound table h.sound⟩, ?_⟩
  obtain ⟨parser, turn, last, hparser, hturn, hstops, hrun⟩ :=
    exists_last_turn (Reached.start : Reached table pattern {})
  refine ⟨parser, turn, last, hparser, hturn, hrun, ?_⟩
  have hcompile := compile_of_run hrun
  cases turn with
  | goesOn => exact absurd rfl hstops
  | rejects e => exact .inl ⟨e, rfl, hcompile⟩
  | ends =>
    obtain ⟨_, next, hends, _, hend⟩ := turn_of_sound table hparser.sound
    rw [hturn] at hends
    cases hends
    rcases hend with ⟨_, _, hend⟩ | ⟨hne, _⟩
    · exact .inr ⟨rfl, hend, hcompile⟩
    · exact absurd rfl hne

/-- Two bytes in front of a directive, a name with a letter too many, a block that is left unread,
and a percent sign at the end. -/
theorem message_parser_sound :
    (∃ turn next, Parse.turn (TokenTable.empty.bind ["m"] (.constant .message)) "é%mx%q\x7b%" {} =
        some (turn, next) ∧ turn ≠ .ends ∧ next.Sound "é%mx%q\x7b%" ∧ 0 < next.position) ∧
    ∃ last, Parse.run (TokenTable.empty.bind ["m"] (.constant .message)) "é%mx%q\x7b%" {} =
        some (.ends, last) ∧ last.Sound "é%mx%q\x7b%" ∧ last.position = 9 ∧
      last.compiled = ⟨[⟨.literal "é", {}⟩, ⟨.message, {}⟩, ⟨.literal "x%q\x7b%", {}⟩],
        [⟨7, .unterminatedBlock⟩, ⟨5, .unknownName ['q']⟩, ⟨8, .danglingPercent⟩]⟩ := by
  have hcompile : compile (TokenTable.empty.bind ["m"] (.constant .message)) "é%mx%q\x7b%" =
      .ok ⟨[⟨.literal "é", {}⟩, ⟨.message, {}⟩, ⟨.literal "x%q\x7b%", {}⟩],
        [⟨7, .unterminatedBlock⟩, ⟨5, .unknownName ['q']⟩, ⟨8, .danglingPercent⟩]⟩ := by
    rw [compile_eq]
    cbv
  obtain ⟨hturns, parser, turn, last, hparser, hturn, hrun, hstops⟩ :=
    parser_always_sound (TokenTable.empty.bind ["m"] (.constant .message)) "é%mx%q\x7b%"
  obtain ⟨_, first, next, hfirst, hnext, hgets⟩ := hturns {} .start
  obtain ⟨_, _, after, hlast, hsound, _⟩ := hturns parser hparser
  rw [hturn] at hlast
  cases hlast
  refine ⟨⟨first, next, hfirst, ?_⟩, last, ?_⟩
  · rcases hgets with ⟨_, hend, _⟩ | ⟨hne, hlt⟩
    · exact absurd hend (by decide)
    · exact ⟨hne, hnext, hlt⟩
  · rcases hstops with ⟨e, _, herror⟩ | ⟨rfl, hend, hok⟩
    · rw [hcompile] at herror
      cases herror
    · rw [hcompile] at hok
      exact ⟨hrun, hsound, hend, (Except.ok.inj hok).symm⟩

end LogLayout.Pattern
