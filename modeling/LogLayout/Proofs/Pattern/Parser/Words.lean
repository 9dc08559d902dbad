import LogLayout.Proofs.Pattern.Lookups
import LogLayout.Proofs.Pattern.Parser.Turns

/-!
# The words that the parser searches

The parser searches a word for the longest token that it begins with where it reads a directive, and
nowhere else. So the words that it searches in a pattern are those of the look-ups.

Results:
1. `asks_turn`: a turn searches the word of the look-up at its position, if there is one there.
2. `wordsOf_run`: the loop searches the words of all look-ups, in their order.
-/

namespace LogLayout.Pattern

open Text (byteLength)
open LogLayout.Fitting (Specifier)

def Access.word? : Access → Option String
  | .word text => some text
  | _ => none

/-- The words that were searched for tokens, the first one first. -/
def wordsOf (accesses : List Access) : List String :=
  accesses.reverse.filterMap Access.word?

/-- Work that searches no word. -/
def Quiet {α : Type} (work : Parse α) : Prop :=
  ∀ parser result after, work parser = some (result, after) →
    wordsOf after.accesses = wordsOf parser.accesses

/-- The work that the parser does searches these words, whatever is on its account before. -/
def Asks {α : Type} (work : Parse α) (parser : Parser) (words : List String) : Prop :=
  ∀ accesses result after, work { parser with accesses := accesses } = some (result, after) →
    wordsOf after.accesses = wordsOf accesses ++ words

variable {α β : Type} {pattern : String} {parser middle : Parser} {result : α}
  {work : Parse α} {next : α → Parse β} {words : List String} {table : TokenTable Factory}
  {before cs : List Char} {c : Char}

theorem wordsOf_cons (access : Access) (accesses : List Access) :
    wordsOf (access :: accesses) = wordsOf accesses ++ access.word?.toList := by
  unfold wordsOf
  rw [List.reverse_cons, List.filterMap_append]
  cases hword : access.word? <;> simp [hword]

theorem wordsOf_cons_of_eq_none {access : Access} (h : access.word? = none)
    (accesses : List Access) : wordsOf (access :: accesses) = wordsOf accesses := by
  rw [wordsOf_cons, h]
  exact List.append_nil _

theorem exists_of_bind {value : β} {after : Parser}
    (h : (work >>= next) parser = some (value, after)) :
    ∃ result middle, work parser = some (result, middle) ∧
      next result middle = some (value, after) := by
  obtain ⟨⟨result, middle⟩, hwork, hnext⟩ := Option.bind_eq_some_iff.mp h
  exact ⟨result, middle, hwork, hnext⟩

/-! ## Work that searches no word -/

namespace Quiet

theorem pure : Quiet (pure result : Parse α) := by
  intro parser value after h
  cases h
  rfl

theorem bind (hwork : Quiet work) (hnext : ∀ result, Quiet (next result)) :
    Quiet (work >>= next) := by
  intro parser value after h
  obtain ⟨result, middle, hfirst, hsecond⟩ := exists_of_bind h
  rw [hnext result middle value after hsecond, hwork parser result middle hfirst]

theorem ite {p : Prop} [Decidable p] {other : Parse α} (hwork : Quiet work)
    (hother : Quiet other) : Quiet (if p then work else other) := by
  split
  · exact hwork
  · exact hother

/-- Work that looks at the pattern. -/
theorem of_note {found : Parser → Option α} {access : Parser → Access}
    (h : ∀ parser, (access parser).word? = none) :
    Quiet (fun parser => do return (← found parser, parser.note (access parser))) := by
  intro parser value after hvalue
  obtain ⟨_, _, hnoted⟩ := Option.bind_eq_some_iff.mp hvalue
  cases hnoted
  exact wordsOf_cons_of_eq_none (h parser) _

/-- A change of the parser that notes no word. -/
theorem of_change {f : Parser → Parser}
    (h : ∀ parser, wordsOf (f parser).accesses = wordsOf parser.accesses) : Quiet (modify f) := by
  intro parser value after hvalue
  cases hvalue
  exact h parser

end Quiet

theorem quiet_position : Quiet Parse.position := by
  intro parser value after h
  cases h
  rfl

theorem quiet_moveTo (position : Nat) : Quiet (Parse.moveTo position) :=
  .of_change fun _ => wordsOf_cons_of_eq_none rfl _

theorem quiet_warn (offset : Nat) (problem : Problem) : Quiet (Parse.warn offset problem) :=
  .of_change fun _ => rfl

theorem quiet_write (text : String) : Quiet (Parse.write text) :=
  .of_change fun _ => rfl

theorem quiet_peek : Quiet (Parse.peek pattern) :=
  .of_note fun _ => rfl

theorem quiet_rest (start : Nat) : Quiet (Parse.rest pattern start) :=
  .of_note fun _ => rfl

theorem quiet_slice (start stop : Nat) : Quiet (Parse.slice pattern start stop) :=
  .of_note fun _ => rfl

theorem quiet_accept (c : Char) : Quiet (Parse.accept pattern c) :=
  quiet_peek.bind fun _ =>
    .ite (quiet_position.bind fun _ => (quiet_moveTo _).bind fun _ => .pure) .pure

theorem quiet_skipWhile (kind : Char → Bool) : Quiet (Parse.skipWhile pattern kind) := by
  intro parser value after h
  fun_induction Parse.skipWhile pattern kind parser with
  | case1 => cases h
  | case2 | case4 =>
    obtain ⟨-, rfl⟩ := Prod.mk.inj (Option.some.inj h)
    exact wordsOf_cons_of_eq_none rfl _
  | case3 parser c _ seen _ ih =>
    rw [ih h]
    exact (wordsOf_cons_of_eq_none rfl _).trans (wordsOf_cons_of_eq_none rfl _)

theorem quiet_readWidth (digits : String) : Quiet (Parse.readWidth digits) :=
  Quiet.bind (.of_change fun _ => wordsOf_cons_of_eq_none rfl _) fun _ => .pure

theorem quiet_width : Quiet (Parse.width pattern) :=
  quiet_position.bind fun _ => (quiet_skipWhile _).bind fun _ => quiet_position.bind fun _ =>
    .ite .pure ((quiet_slice _ _).bind fun _ => quiet_readWidth _)

theorem quiet_minimum : Quiet (Parse.minimum pattern) :=
  quiet_position.bind fun _ => quiet_width.bind fun _ => quiet_position.bind fun _ =>
    (Quiet.ite (quiet_warn _ _) .pure).bind fun _ => .pure

theorem quiet_limit : Quiet (Parse.limit pattern) := by
  refine (quiet_accept '-').bind fun _ => quiet_position.bind fun _ =>
    quiet_width.bind fun found => ?_
  cases found with
  | some => exact .pure
  | none => exact quiet_position.bind fun _ => (quiet_warn _ _).bind fun _ => .pure

theorem quiet_modifiers : Quiet (Parse.modifiers pattern) :=
  (quiet_accept '-').bind fun _ => quiet_minimum.bind fun _ =>
    Quiet.bind ((quiet_accept '.').bind fun _ => .ite quiet_limit .pure) fun _ => .pure

theorem quiet_matchPrefix (start length : Nat) :
    Quiet (Parse.matchPrefix table pattern start length) := by
  induction length with
  | zero => exact .pure
  | succ length ih =>
    refine (quiet_slice _ _).bind fun token => ?_
    cases table.get? token with
    | some => exact .pure
    | none => exact ih

theorem quiet_options : Quiet (Parse.options pattern) := by
  refine quiet_peek.bind fun _ => .ite (quiet_position.bind fun opening =>
    (quiet_rest _).bind fun behind => ?_) .pure
  cases OptionBlock.close? [] [] 0 behind.toList with
  | some => exact (quiet_moveTo _).bind fun _ => .pure
  | none => exact (quiet_warn _ _).bind fun _ => .pure

theorem quiet_keep (start : Nat) (problem : Problem) : Quiet (Parse.keep pattern start problem) :=
  quiet_position.bind fun _ => (quiet_slice _ _).bind fun _ => (quiet_write _).bind fun _ =>
    (quiet_warn _ _).bind fun _ => .pure

theorem quiet_build (start : Nat) (specifier : Specifier) (token : String) (factory : Factory) :
    Quiet (Parse.build pattern start specifier token factory) := by
  refine quiet_options.bind fun options => ?_
  cases factory options with
  | error => exact .pure
  | ok converter =>
    refine Quiet.bind (.of_change fun parser => ?_) fun _ => .pure
    rw [Parser.flush_eq]
    rfl

theorem quiet_word : Quiet (Parse.word pattern) :=
  quiet_position.bind fun _ => (quiet_skipWhile _).bind fun _ => quiet_position.bind fun _ =>
    (quiet_slice _ _).bind fun _ => .pure

/-! ## Work that searches words -/

namespace Asks

theorem of_quiet (h : Quiet work) : Asks work parser [] := fun accesses result after hwork => by
  rw [h _ result after hwork, List.append_nil]

theorem bind {first second : List String} (hruns : Runs pattern work parser result middle)
    (hwork : Asks work parser first) (hnext : Asks (next result) middle second) :
    Asks (work >>= next) parser (first ++ second) := by
  intro accesses value after h
  obtain ⟨more, hmore, -⟩ := hruns accesses
  obtain ⟨_, _, hfirst, hsecond⟩ := exists_of_bind h
  rw [hmore] at hfirst
  cases hfirst
  rw [hnext _ value after hsecond, hwork _ _ _ hmore, List.append_assoc]

theorem behind_quiet (hruns : Runs pattern work parser result middle) (hwork : Quiet work)
    (hnext : Asks (next result) middle words) : Asks (work >>= next) parser words :=
  bind hruns (of_quiet hwork) hnext

theorem before_quiet (hwork : Asks work parser words) (hnext : ∀ result, Quiet (next result)) :
    Asks (work >>= next) parser words := by
  intro accesses value after h
  obtain ⟨result, middle, hfirst, hsecond⟩ := exists_of_bind h
  rw [hnext result middle value after hsecond, hwork accesses result middle hfirst]

theorem congr {other : Parse α}
    (h : ∀ accesses, work { parser with accesses := accesses } =
      other { parser with accesses := accesses })
    (hother : Asks other parser words) : Asks work parser words := by
  intro accesses
  rw [h accesses]
  exact hother accesses

end Asks

theorem asks_longestMatch (start : Nat) (word : String) :
    Asks (Parse.longestMatch table pattern start word) parser [word] :=
  Asks.before_quiet (fun _ _ _ h => by cases h; exact wordsOf_cons _ _) fun _ =>
    quiet_matchPrefix _ _

theorem asks_resolve (start : Nat) (specifier : Specifier) (opening : Nat) {word : String}
    (h : word ≠ "") :
    Asks (Parse.resolve table pattern start specifier opening word) parser [word] := by
  unfold Parse.resolve
  rw [if_neg h]
  refine (asks_longestMatch opening word).before_quiet fun found => ?_
  cases found with
  | none => exact quiet_options.bind fun _ => quiet_keep _ _
  | some => exact (quiet_moveTo _).bind fun _ => quiet_build _ _ _ _

/-! ## Turns and the loop -/

/-- The words that are searched for the look-up at a position. -/
def lookupWords (c : Char) (cs : List Char) : List String :=
  (Piece.lookup? c cs).toList.map fun l => String.ofList l.word

theorem asks_directive (parser : Parser) (h : pattern.toList = before ++ '%' :: cs)
    (hhead : cs.head? ≠ some '%') :
    Asks (Parse.directive table pattern (byteLength before)) (parser.behind (before ++ ['%']))
      (lookupWords '%' cs) := by
  have hmodifiers : pattern.toList =
      (before ++ ['%']) ++ ((Modifiers.read cs).1.source ++ (Modifiers.read cs).2) := by
    rw [h, List.append_cons, Modifiers.source_append_read]
  have hword : pattern.toList = (before ++ ['%'] ++ (Modifiers.read cs).1.source) ++
      ((Modifiers.read cs).2.takeWhile Char.isAlpha ++
        (Modifiers.read cs).2.dropWhile Char.isAlpha) := by
    rw [hmodifiers, List.append_assoc (before ++ ['%']), List.takeWhile_append_dropWhile]
  unfold Parse.directive lookupWords Piece.lookup?
  refine .behind_quiet (runs_modifiers parser hmodifiers (Modifiers.stands_read cs)) quiet_modifiers
    (.behind_quiet (runs_word _ hword (isRun_takeWhile _ _)) quiet_word ?_)
  by_cases hne : (Modifiers.read cs).2.takeWhile Char.isAlpha = []
  · rw [hne, if_neg fun hlookup => hlookup.2.2 rfl]
    exact .of_quiet (quiet_keep _ _)
  · rw [if_pos ⟨rfl, hhead, hne⟩]
    exact asks_resolve _ _ _ (ofList_ne_empty hne)

/-- A turn searches the word of the look-up at its position, if there is one. -/
theorem asks_turn (parser : Parser) (h : pattern.toList = before ++ c :: cs) :
    Asks (Parse.turn table pattern) (parser.behind before) (lookupWords c cs) := by
  unfold Parse.turn
  refine .behind_quiet (runs_peek h) quiet_peek
    (.behind_quiet (@runs_position pattern _ _) quiet_position ?_)
  show Asks (if c = '%' then _ else _) _ _
  by_cases hc : c = '%'
  · subst hc
    have hbehind : pattern.toList = (before ++ ['%']) ++ cs := by rw [h, List.append_cons]
    rw [if_pos rfl]
    refine .behind_quiet (runs_moveTo hbehind (byteLength_concat rfl)) (quiet_moveTo _)
      (.behind_quiet (runs_peek hbehind) quiet_peek ?_)
    cases cs with
    | nil => exact .of_quiet ((quiet_write _).bind fun _ => (quiet_warn _ _).bind fun _ => .pure)
    | cons next cs =>
      show Asks (if next = '%' then _ else _) _ _
      by_cases hnext : next = '%'
      · subst hnext
        rw [if_pos rfl]
        exact .of_quiet (quiet_position.bind fun _ => (quiet_moveTo _).bind fun _ =>
          (quiet_write _).bind fun _ => .pure)
      · rw [if_neg hnext]
        exact asks_directive parser h fun hhead => hnext (Option.some.inj hhead)
  · unfold lookupWords Piece.lookup?
    rw [if_neg hc, if_neg fun hlookup => hc hlookup.1]
    exact .of_quiet ((quiet_write _).bind fun _ => (quiet_moveTo _).bind fun _ => .pure)

theorem Parser.absorb_goesOn_iff (parser : Parser) (before : List Char) (piece : Piece Factory) :
    (parser.absorb before piece).1 = .goesOn ↔ piece.isRejected = false := by
  cases piece with
  | directive d =>
    unfold Piece.isRejected
    cases hvalue : d.value d.options.options with
    | ok converter => simp [parser.absorb_of_ok before hvalue, hvalue]
    | error cause => simp [parser.absorb_of_error before hvalue, hvalue]
  | plain | percent | dangling | nameless | unknown => exact ⟨fun _ => rfl, fun _ => rfl⟩

/-- From a position on, the loop searches the words of the look-ups of the text there. -/
theorem asks_run (parser : Parser) (h : pattern.toList = before ++ cs) :
    Asks (Parse.run table pattern) (parser.behind before)
      ((lookups table cs).map fun l => String.ofList l.word) := by
  fun_induction lookups table cs generalizing before parser with
  | case1 =>
    rw [List.append_nil] at h
    have hend : pattern.toList = before ++ [] := by rw [h, List.append_nil]
    refine .congr (run_eq_turn_of_end parser h) ?_
    exact .behind_quiet (runs_peek hend) quiet_peek (.of_quiet .pure)
  | case2 c cs ih =>
    have hturn : Asks (Parse.turn table pattern) (parser.behind before) (lookupWords c cs) :=
      asks_turn parser h
    have hpiece := Piece.read_stands table c cs
    rw [← Piece.read_source table c cs] at h
    have hruns := runs_turn parser h hpiece
    rw [List.map_append]
    rcases habsorb : parser.absorb before (Piece.read table c cs).1 with ⟨turn, next⟩
    have hgoesOn := parser.absorb_goesOn_iff before (Piece.read table c cs).1
    rw [habsorb] at hgoesOn hruns
    cases hrejected : (Piece.read table c cs).1.isRejected with
    | false =>
      obtain rfl := hgoesOn.mpr hrejected
      have hposition := parser.absorb_position before (Piece.read table c cs).1
      have hbehind : pattern.toList = (before ++ (Piece.read table c cs).1.source) ++
          (Piece.read table c cs).2 := by rw [h, List.append_assoc]
      have hrest := ih next hbehind
      rw [habsorb] at hposition
      rw [Parser.behind_of_position hposition] at hrest
      exact .congr (run_eq_bind h hpiece habsorb) (.bind hruns hturn hrest)
    | true =>
      have hstops : turn ≠ .goesOn := fun h => by
        rw [hgoesOn.mp h] at hrejected
        cases hrejected
      rw [if_pos rfl, List.map_nil, List.append_nil]
      exact .congr (hruns.run_eq_turn hstops) hturn

/-- The words that are searched to compile a pattern are those of its look-ups. -/
theorem wordsOf_run {turn : Turn} {last : Parser}
    (h : Parse.run table pattern {} = some (turn, last)) :
    wordsOf last.accesses = (lookups table pattern.toList).map fun l => String.ofList l.word := by
  have hasks : Asks (Parse.run table pattern) (({} : Parser).behind [])
      ((lookups table pattern.toList).map fun l => String.ofList l.word) := asks_run {} rfl
  exact hasks [] turn last h

end LogLayout.Pattern
