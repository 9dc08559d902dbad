import LogLayout.Chain
import LogLayout.Directives
import LogLayout.Pattern.Warning
import LogLayout.Text.Slice

/-!
# The parser

A pattern is read from the left by a parser with a position in bytes, which moves by fixed steps, by
the widths of characters, to the end of a block, and back to the end of a token. Literal text is
collected until a directive follows; malformed text is literal too, with a warning. The parser stops
at the first directive whose options its factory rejects.

There is no result when the pattern is looked at inside a character or outside of it, and none when
a turn of the loop does not get on. The parser keeps account of what it does with the pattern, so
that it can be told of all of it that it is sound.
-/

namespace LogLayout.Pattern

open LogLayout.Fitting (Specifier Limit Side)

/-- A directive whose options are rejected: its token, its position, and the report of its
factory. -/
structure CompileError where
  directive : String
  offset : Nat
  cause : Report

def CompileError.report (e : CompileError) : Report :=
  .full "failed to build pattern converter"
    [("directive", e.directive), ("offset", toString e.offset)] [e.cause]

structure Compiled where
  chain : Chain
  warnings : List Warning

/-- What is done with a pattern and with the texts that are taken from it. -/
inductive Access where
  /-- The position is moved there. -/
  | move (position : Nat)
  /-- The text from a position on is looked at. -/
  | rest (start : Nat)
  /-- The text between two positions is taken. -/
  | slice (start stop : Nat)
  /-- A text is read as a number. -/
  | number (text : String)
  /-- The longest bound prefix of a text is searched for. -/
  | word (text : String)
  deriving DecidableEq, Repr

/-- The position of the next character, the literal text since the last directive, the chain and the
warnings so far, and the accesses to the pattern, the last one first. -/
structure Parser where
  position : Nat := 0
  literal : String := ""
  chain : Chain := []
  warnings : List Warning := []
  accesses : List Access := []

/-- What a turn of the main loop comes to. -/
inductive Turn where
  | goesOn
  | ends
  | rejects (e : CompileError)

namespace Parser

def note (parser : Parser) (access : Access) : Parser :=
  { parser with accesses := access :: parser.accesses }

def moveTo (parser : Parser) (position : Nat) : Parser :=
  { parser.note (.move position) with position := position }

def write (parser : Parser) (text : String) : Parser :=
  { parser with literal := parser.literal ++ text }

def warn (parser : Parser) (offset : Nat) (problem : Problem) : Parser :=
  { parser with warnings := parser.warnings ++ [⟨offset, problem⟩] }

/-- Literal text that is waiting becomes a literal of the chain. -/
def flush (parser : Parser) : Parser :=
  if parser.literal = "" then parser
  else
    { parser with
      literal := ""
      chain := parser.chain ++ [⟨.literal parser.literal, {}⟩] }

def push (parser : Parser) (link : Link) : Parser :=
  { parser with chain := parser.chain ++ [link] }

def compiled (parser : Parser) : Compiled :=
  ⟨parser.flush.chain, parser.warnings⟩

end Parser

/-- A part of the parser's work; without a result where it would go wrong. -/
abbrev Parse := StateT Parser Option

/-- The options that fields between commas stand for: none when the only field is empty. -/
def optionTexts (fields : List (List Char)) : List String :=
  if fields = [[]] then [] else fields.map String.ofList

namespace Parse

/-! ## The pattern at a position -/

def position : Parse Nat :=
  return (← get).position

def moveTo (position : Nat) : Parse Unit :=
  modify fun parser => parser.moveTo position

def warn (offset : Nat) (problem : Problem) : Parse Unit :=
  modify fun parser => parser.warn offset problem

def write (text : String) : Parse Unit :=
  modify fun parser => parser.write text

section

variable (table : TokenTable Factory) (pattern : String)

/-- The next character. -/
def peek : Parse (Option Char) := fun parser => do
  let found ← Text.charAt? pattern parser.position
  return (found, parser.note (.rest parser.position))

/-- The text from a position on. -/
def rest (start : Nat) : Parse String := fun parser => do
  let text ← Text.slice? pattern start pattern.utf8ByteSize
  return (text, parser.note (.rest start))

def slice (start stop : Nat) : Parse String := fun parser => do
  let text ← Text.slice? pattern start stop
  return (text, parser.note (.slice start stop))

/-- Moves over the character, of one byte, if it is the next one. -/
def accept (c : Char) : Parse Bool := do
  if (← peek pattern) = some c then
    moveTo ((← position) + 1)
    return true
  else return false

/-- Moves over all characters of a kind, of one byte each, that come next. -/
def skipWhile (kind : Char → Bool) (parser : Parser) : Option (Unit × Parser) :=
  match _hfound : Text.charAt? pattern parser.position with
  | none => none
  | some none => some ((), parser.note (.rest parser.position))
  | some (some c) =>
    let seen := parser.note (.rest parser.position)
    if kind c then skipWhile kind (seen.moveTo (parser.position + 1)) else some ((), seen)
termination_by pattern.utf8ByteSize - parser.position
decreasing_by
  have hlt := Text.lt_of_charAt? _hfound
  show pattern.utf8ByteSize - (parser.position + 1) < pattern.utf8ByteSize - parser.position
  omega

/-! ## Modifiers -/

/-- The number of the digits, unless it is out of range. -/
def readWidth (digits : String) : Parse (Option Nat) := do
  modify fun parser => parser.note (.number digits)
  return (Numeral.readUnsigned digits.toList).toOption.filter fun width => width ≤ widthLimit

/-- Reads digits, if there are any. -/
def width : Parse (Option Nat) := do
  let start ← position
  skipWhile pattern Char.isDigit
  let stop ← position
  if start = stop then return none
  else readWidth (← slice pattern start stop)

def minimum : Parse (Option Nat) := do
  let start ← position
  let found ← width pattern
  let stop ← position
  (if found = none ∧ start < stop then warn start .minimumOutOfRange else pure ())
  return found

/-- Reads what stands behind the point of modifiers. -/
def limit : Parse (Option Limit) := do
  let keepsHead ← accept pattern '-'
  let start ← position
  match ← width pattern with
  | some width => return some ⟨width, if keepsHead then Side.head else Side.tail⟩
  | none =>
    let stop ← position
    warn start (if start < stop then .maximumOutOfRange else .missingMaximum)
    return none

def maximum : Parse (Option Limit) := do
  if ← accept pattern '.' then limit pattern else return none

def modifiers : Parse Specifier := do
  let leftJustified ← accept pattern '-'
  let minWidth ← minimum pattern
  let limit ← maximum pattern
  return ⟨minWidth, if leftJustified then .left else .right, limit⟩

/-! ## Names and options -/

/-- Looks the texts from a position on up, from so many bytes down to one. -/
def matchPrefix (start : Nat) : Nat → Parse (Option (String × Factory))
  | 0 => return none
  | length + 1 => do
    let token ← slice pattern start (start + (length + 1))
    match table.get? token with
    | some factory => return some (token, factory)
    | none => matchPrefix start length

/-- The longest bound prefix of the word that begins at a position. -/
def longestMatch (start : Nat) (word : String) : Parse (Option (String × Factory)) := do
  modify fun parser => parser.note (.word word)
  matchPrefix table pattern start word.utf8ByteSize

/-- Reads a block of options; one that is never closed is left unread. -/
def options : Parse (List String) := do
  if (← peek pattern) = some '\x7b' then
    let opening ← position
    let behind ← rest pattern (opening + 1)
    match OptionBlock.close? [] [] 0 behind.toList with
    | some (fields, closing) =>
      moveTo (opening + 1 + closing + 1)
      return optionTexts fields
    | none =>
      warn opening .unterminatedBlock
      return []
  else return []

/-- Keeps the text from `start` on as it is written. -/
def keep (start : Nat) (problem : Problem) : Parse Turn := do
  write (← slice pattern start (← position))
  warn start problem
  return .goesOn

/-- Reads the options of a directive and puts its converter behind the chain. -/
def build (start : Nat) (specifier : Specifier) (token : String) (factory : Factory) :
    Parse Turn := do
  match factory (← options pattern) with
  | .error cause => return .rejects ⟨token, start, cause⟩
  | .ok converter =>
    modify fun parser => parser.flush.push ⟨converter, specifier⟩
    return .goesOn

/-- Reads letters, and gives their position too. -/
def word : Parse (Nat × String) := do
  let opening ← position
  skipWhile pattern Char.isAlpha
  return (opening, ← slice pattern opening (← position))

/-- Goes on behind the letters of a directive. Those behind its token are plain text. -/
def resolve (start : Nat) (specifier : Specifier) (opening : Nat) (word : String) : Parse Turn := do
  if word = "" then keep pattern start .missingName
  else
    match ← longestMatch table pattern opening word with
    | none =>
      let _ ← options pattern
      keep pattern start (.unknownName word.toList)
    | some (token, factory) =>
      moveTo (opening + token.utf8ByteSize)
      build pattern start specifier token factory

/-- Reads what follows a `%` at the position `start` that is neither the last character nor followed
by another one. -/
def directive (start : Nat) : Parse Turn := do
  let specifier ← modifiers pattern
  let (opening, word) ← word pattern
  resolve table pattern start specifier opening word

/-! ## The main loop -/

/-- One turn of the loop. -/
def turn : Parse Turn := do
  match ← peek pattern with
  | none => return .ends
  | some c =>
    let start ← position
    if c = '%' then
      moveTo (start + 1)
      match ← peek pattern with
      | none =>
        write "%"
        warn start .danglingPercent
        return .goesOn
      | some next =>
        if next = '%' then
          moveTo ((← position) + 1)
          write "%"
          return .goesOn
        else directive table pattern start
    else
      write (String.singleton c)
      moveTo (start + c.utf8Size)
      return .goesOn

/-- Takes turns up to the end or a rejection. A turn that does not get on within the pattern would
be taken forever. -/
def run (parser : Parser) : Option (Turn × Parser) :=
  match turn table pattern parser with
  | some (.goesOn, next) =>
    if parser.position < next.position ∧ next.position ≤ pattern.utf8ByteSize then run next
    else none
  | stopped => stopped
termination_by pattern.utf8ByteSize - parser.position
decreasing_by omega

end

end Parse

/-- What the parser leaves behind when it stops. -/
def outcome : Turn × Parser → Except CompileError Compiled
  | (.rejects e, _) => .error e
  | (_, parser) => .ok parser.compiled

/-- Reads the whole pattern. -/
def parse? (table : TokenTable Factory) (pattern : String) :
    Option (Except CompileError Compiled) :=
  (Parse.run table pattern {}).map outcome

end LogLayout.Pattern
