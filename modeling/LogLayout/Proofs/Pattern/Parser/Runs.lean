import LogLayout.Pattern.Parser
import LogLayout.Proofs.Pattern.Modifiers

/-!
# Running the parser

What a part of the parser's work comes to is told of a parser whose position is behind a text that
the pattern begins with: its result, how it leaves the parser, and that it only makes sound accesses
to the pattern. Parts are put together by `Runs.bind`.

Results:
1. `runs_peek`, `runs_slice`, `runs_rest`: what is taken from the pattern.
2. `runs_skipWhile`, `runs_accept_of_head`, `runs_accept_of_ne`: moves over single characters.
-/

namespace LogLayout.Pattern

open Text (byteLength)

/-- A position of the pattern, on the boundary of a character. -/
def SoundPosition (pattern : String) (position : Nat) : Prop :=
  position ≤ pattern.utf8ByteSize ∧ String.Pos.Raw.IsValid pattern ⟨position⟩

/-- Positions lie in the pattern and on the boundaries of characters, slices do not end before they
begin, only digits are read as a number, and only words of letters are searched for a token. -/
def Access.Sound (pattern : String) : Access → Prop
  | .move position => SoundPosition pattern position
  | .rest start => SoundPosition pattern start
  | .slice start stop =>
    start ≤ stop ∧ SoundPosition pattern start ∧ SoundPosition pattern stop
  | .number text => text ≠ "" ∧ ∀ c ∈ text.toList, c.isDigit
  | .word text => text ≠ "" ∧ ∀ c ∈ text.toList, c.isAlpha

namespace Parser

/-- The parser with its position behind a text. -/
def behind (parser : Parser) (before : List Char) : Parser :=
  { parser with position := byteLength before }

/-- The parser when it has warned of more. -/
def warned (parser : Parser) (warnings : List Warning) : Parser :=
  { parser with warnings := parser.warnings ++ warnings }

theorem warned_nil (parser : Parser) : parser.warned [] = parser := by
  unfold warned
  rw [List.append_nil]

theorem warned_warned (parser : Parser) (first second : List Warning) :
    (parser.warned first).warned second = parser.warned (first ++ second) := by
  unfold warned
  rw [List.append_assoc]

end Parser

/-- The work comes to the result and leaves the parser as `after`. The account of accesses is not
compared: whatever it is before, it has grown by sound ones only. -/
def Runs {α : Type} (pattern : String) (work : Parse α) (parser : Parser) (result : α)
    (after : Parser) : Prop :=
  ∀ accesses, ∃ more, work { parser with accesses := accesses } =
      some (result, { after with accesses := more ++ accesses }) ∧
    ∀ access ∈ more, access.Sound pattern

variable {α β : Type} {pattern : String} {parser middle after : Parser} {result : α}
  {before cs rest : List Char} {c : Char}

theorem Runs.pure : Runs pattern (pure result) parser result parser :=
  fun _ => ⟨[], rfl, fun _ h => by cases h⟩

theorem Runs.bind {work : Parse α} {next : α → Parse β} {value : β}
    (hwork : Runs pattern work parser result middle)
    (hnext : Runs pattern (next result) middle value after) :
    Runs pattern (work >>= next) parser value after := by
  intro accesses
  obtain ⟨first, hfirst, hsound⟩ := hwork accesses
  obtain ⟨second, hsecond, hsounds⟩ := hnext (first ++ accesses)
  refine ⟨second ++ first, ?_, fun access haccess => ?_⟩
  · show (work _).bind _ = _
    rw [hfirst, List.append_assoc, ← hsecond]
    rfl
  · rcases List.mem_append.mp haccess with haccess | haccess
    · exact hsounds access haccess
    · exact hsound access haccess

/-- Work comes to one result. -/
theorem Runs.result_eq {work : Parse α} {other : α} (h : Runs pattern work parser result middle)
    (hother : Runs pattern work parser other after) : result = other := by
  obtain ⟨_, hrun, -⟩ := h []
  obtain ⟨_, hsecond, -⟩ := hother []
  rw [hrun] at hsecond
  exact congrArg Prod.fst (Option.some.inj hsecond)

/-- Work that does the same is told of alike. -/
theorem Runs.congr {work other : Parse α}
    (h : ∀ accesses, work { parser with accesses := accesses } =
      other { parser with accesses := accesses })
    (hother : Runs pattern other parser result after) :
    Runs pattern work parser result after := by
  intro accesses
  rw [h accesses]
  exact hother accesses

/-- Work that consists of one access. -/
theorem Runs.of_access {work : Parse α} {access : Access} (hsound : access.Sound pattern)
    (hwork : ∀ accesses, work { parser with accesses := accesses } =
      some (result, { after with accesses := access :: accesses })) :
    Runs pattern work parser result after := by
  refine fun accesses => ⟨[access], hwork accesses, fun other hother => ?_⟩
  rw [List.mem_singleton.mp hother]
  exact hsound

/-! ## At a position -/

theorem soundPosition_of_append (h : pattern.toList = before ++ cs) :
    SoundPosition pattern (byteLength before) := by
  refine ⟨?_, Text.isValid_of_append h⟩
  rw [← Text.byteLength_toList, h, Text.byteLength_append]
  exact Nat.le_add_right _ _

theorem runs_position :
    Runs pattern Parse.position (parser.behind before) (byteLength before)
      (parser.behind before) :=
  fun _ => ⟨[], rfl, fun _ h => by cases h⟩

theorem runs_moveTo {position : Nat} (h : pattern.toList = before ++ cs)
    (hposition : position = byteLength before) :
    Runs pattern (Parse.moveTo position) parser () (parser.behind before) := by
  subst hposition
  have hsound : (Access.move (byteLength before)).Sound pattern := soundPosition_of_append h
  exact .of_access hsound fun _ => rfl

/-- A change of the parser that leaves the pattern alone. -/
theorem runs_change {f : Parser → Parser}
    (hf : ∀ accesses, f { parser with accesses := accesses } =
      { after with accesses := accesses }) :
    Runs pattern (modify f) parser () after :=
  fun accesses =>
    ⟨[], congrArg (fun changed => some ((), changed)) (hf accesses), fun _ h => by cases h⟩

theorem runs_warn {offset : Nat} {problem : Problem} :
    Runs pattern (Parse.warn offset problem) parser () (parser.warned [⟨offset, problem⟩]) :=
  runs_change fun _ => rfl

theorem runs_write {text : String} :
    Runs pattern (Parse.write text) parser () (parser.write text) :=
  runs_change fun _ => rfl

theorem runs_flush_push {link : Link} :
    Runs pattern (modify fun parser => parser.flush.push link) parser ()
      (parser.flush.push link) := by
  refine runs_change fun _ => ?_
  unfold Parser.flush
  split <;> rfl

theorem runs_peek (h : pattern.toList = before ++ cs) :
    Runs pattern (Parse.peek pattern) (parser.behind before) cs.head? (parser.behind before) := by
  have hsound : (Access.rest (byteLength before)).Sound pattern := soundPosition_of_append h
  refine .of_access hsound fun accesses => ?_
  show (Text.charAt? pattern (byteLength before)).bind _ = _
  rw [Text.charAt?_of_append h]
  rfl

theorem runs_slice {text : List Char} {stop : Nat}
    (h : pattern.toList = before ++ (text ++ rest)) (hstop : stop = byteLength (before ++ text)) :
    Runs pattern (Parse.slice pattern (byteLength before) stop) parser (String.ofList text)
      parser := by
  subst hstop
  have hbehind : pattern.toList = (before ++ text) ++ rest := by rw [h, List.append_assoc]
  have hle : byteLength before ≤ byteLength (before ++ text) := by
    rw [Text.byteLength_append]
    exact Nat.le_add_right _ _
  have hsound : (Access.slice (byteLength before) (byteLength (before ++ text))).Sound pattern :=
    ⟨hle, soundPosition_of_append h, soundPosition_of_append hbehind⟩
  refine .of_access hsound fun accesses => ?_
  show (Text.slice? pattern (byteLength before) (byteLength (before ++ text))).bind _ = _
  rw [Text.slice?_of_append h]
  rfl

theorem runs_rest {start : Nat} (h : pattern.toList = before ++ cs)
    (hstart : start = byteLength before) :
    Runs pattern (Parse.rest pattern start) parser (String.ofList cs) parser := by
  subst hstart
  have hsound : (Access.rest (byteLength before)).Sound pattern := soundPosition_of_append h
  have hall : pattern.toList = before ++ (cs ++ []) := by rw [List.append_nil, h]
  refine .of_access hsound fun accesses => ?_
  show (Text.slice? pattern (byteLength before) pattern.utf8ByteSize).bind _ = _
  rw [← Text.byteLength_toList, h, Text.slice?_of_append hall]
  rfl

/-! ## Over characters -/

theorem byteLength_concat (hc : c.utf8Size = 1) :
    byteLength before + 1 = byteLength (before ++ [c]) := by
  rw [Text.byteLength_append, Text.byteLength_cons, hc, Text.byteLength_nil]

section

variable {kind : Char → Bool}

theorem skipWhile_of_stop {found : Option Char}
    (hfound : Text.charAt? pattern parser.position = some found)
    (hstop : ∀ c, found = some c → kind c = false) :
    Parse.skipWhile pattern kind parser = (do let _ ← Parse.peek pattern; pure ()) parser := by
  have hpeek : (do let _ ← Parse.peek pattern; pure () : Parse Unit) parser =
      some ((), parser.note (.rest parser.position)) := by
    show ((Text.charAt? pattern parser.position).bind _).bind _ = _
    rw [hfound]
    rfl
  rw [hpeek, Parse.skipWhile]
  split
  · rename_i hnone
    rw [hnone] at hfound
    cases hfound
  · rfl
  · rename_i c hsome
    rw [hsome] at hfound
    exact if_neg (by rw [hstop c (Option.some.inj hfound).symm]; exact Bool.false_ne_true)

theorem skipWhile_of_kind (hfound : Text.charAt? pattern parser.position = some (some c))
    (hkind : kind c = true) :
    Parse.skipWhile pattern kind parser =
      (do
        let _ ← Parse.peek pattern
        let position ← Parse.position
        Parse.moveTo (position + 1)
        Parse.skipWhile pattern kind) parser := by
  have hpeek : (do
      let _ ← Parse.peek pattern
      let position ← Parse.position
      Parse.moveTo (position + 1)
      Parse.skipWhile pattern kind : Parse Unit) parser =
      Parse.skipWhile pattern kind
        ((parser.note (.rest parser.position)).moveTo (parser.position + 1)) := by
    show ((Text.charAt? pattern parser.position).bind _).bind _ = _
    rw [hfound]
    rfl
  rw [hpeek, Parse.skipWhile]
  split
  · rename_i hnone
    rw [hnone] at hfound
    cases hfound
  · rename_i hnone
    rw [hnone] at hfound
    cases hfound
  · rename_i d hsome
    rw [hsome] at hfound
    cases hfound
    exact if_pos hkind

theorem runs_skipWhile {run : List Char} (hkind : ∀ c, kind c → c.utf8Size = 1)
    (hrun : IsRun kind run rest) (h : pattern.toList = before ++ (run ++ rest)) :
    Runs pattern (Parse.skipWhile pattern kind) (parser.behind before) ()
      (parser.behind (before ++ run)) := by
  induction run generalizing before with
  | nil =>
    refine .congr (fun _ => skipWhile_of_stop (Text.charAt?_of_append h) hrun.stop) ?_
    rw [List.append_nil]
    exact .bind (runs_peek h) .pure
  | cons c run ih =>
    have hc := hrun.all c List.mem_cons_self
    have hrest : pattern.toList = (before ++ [c]) ++ (run ++ rest) := by
      rw [h, List.append_assoc]
      rfl
    refine .congr (fun _ => skipWhile_of_kind (Text.charAt?_of_append h) hc) ?_
    refine .bind (runs_peek h) (.bind runs_position (.bind
      (runs_moveTo hrest (byteLength_concat (hkind c hc))) ?_))
    rw [List.append_cons before c run]
    exact ih ⟨fun d hd => hrun.all d (List.mem_cons_of_mem c hd), hrun.stop⟩ hrest

end

theorem runs_accept_of_head (h : pattern.toList = before ++ c :: rest) (hc : c.utf8Size = 1) :
    Runs pattern (Parse.accept pattern c) (parser.behind before) true
      (parser.behind (before ++ [c])) := by
  unfold Parse.accept
  refine .bind (runs_peek h) ?_
  rw [List.head?_cons, if_pos rfl]
  rw [List.append_cons] at h
  exact .bind runs_position (.bind (runs_moveTo h (byteLength_concat hc)) .pure)

theorem runs_accept_of_ne (h : pattern.toList = before ++ cs) (hne : cs.head? ≠ some c) :
    Runs pattern (Parse.accept pattern c) (parser.behind before) false (parser.behind before) := by
  unfold Parse.accept
  refine .bind (runs_peek h) ?_
  rw [if_neg hne]
  exact .pure

end LogLayout.Pattern
