import LogLayout.Text.Quoted

/-!
# Reports of problems

A report says what went wrong, names the values that were involved, and holds the problems it
came from, which are reports of their own or bare messages. It is printed in three forms: on one
line (`display`), as a block of lines (`details`), and as an indented structure (`structured`).
-/

namespace LogLayout

/-- A problem: a bare message, or a message with named values and the problems behind it. -/
inductive Report where
  | note (text : String)
  | full (message : String) (context : List (String × String)) (sources : List Report)
  deriving Repr

namespace Report

def of (message : String) (context : List (String × String) := []) : Report :=
  .full message context []

def message : Report → String
  | .note text => text
  | .full message _ _ => message

def context : Report → List (String × String)
  | .note _ => []
  | .full _ context _ => context

def sources : Report → List Report
  | .note _ => []
  | .full _ _ sources => sources

/-- The first value of that name. -/
def lookup (key : String) (report : Report) : Option String :=
  report.context.lookup key

/-! ## One line -/

def entry (pair : String × String) : String :=
  pair.1 ++ ": " ++ pair.2

/-- The named values behind the message, if there are any. -/
def contextPart (context : List (String × String)) : String :=
  if context.isEmpty then ""
  else ", context: \x7b " ++ ", ".intercalate (context.map entry) ++ " \x7d"

mutual

/-- The report on one line, texts as they are. -/
def display : Report → String
  | .note text => text
  | .full message context [] => message ++ contextPart context
  | .full message context (source :: more) =>
    message ++ contextPart context ++ ", sources: [" ++
      ", ".intercalate (display source :: displayAll more) ++ "]"

def displayAll : List Report → List String
  | [] => []
  | report :: more => display report :: displayAll more

end

/-! ## The chain of first sources -/

/-- The displays of the problems met when each report is followed to its first source. -/
def chain : Report → List String
  | .full _ _ (source :: _) => source.display :: source.chain
  | _ => []

/-- The display with those of its chain behind it. -/
def displayChain (report : Report) : String :=
  ": ".intercalate (report.display :: report.chain)

/-! ## A block of lines -/

/-- One line of a list in the block. -/
def item (text : String) : String :=
  "   " ++ text ++ "\n"

/-- A heading with its list, set off by an empty line; nothing for an empty list. -/
def block (heading : String) (items : List String) : String :=
  if items.isEmpty then "" else "\n" ++ heading ++ "\n" ++ String.join (items.map item)

/-- Message, named values and sources in lines. -/
def details (report : Report) : String :=
  report.message ++ "\n" ++ block "Context:" (report.context.map entry) ++
    block "Sources:" (report.sources.map displayChain)

/-! ## An indented structure -/

/-- The spaces before a line at that depth. -/
def margin (depth : Nat) : String :=
  "".pushn ' ' (4 * depth)

/-- The elements, each with its margin and a comma, between brackets on lines of their own; an
empty list stays on one line. -/
def bracketed (depth : Nat) (left right : String) (elements : List String) : String :=
  if elements.isEmpty then left ++ right
  else
    left ++ "\n" ++ String.join (elements.map fun e => margin (depth + 1) ++ e ++ ",\n") ++
      margin depth ++ right

/-- A named value as a pair of quoted texts. -/
def quotedPair (depth : Nat) (pair : String × String) : String :=
  bracketed depth "(" ")" [Text.Quoted.quote pair.1, Text.Quoted.quote pair.2]

mutual

/-- The report as a structure whose closing line stands at that depth. -/
def structuredAt (depth : Nat) : Report → String
  | .note text => Text.Quoted.quote text
  | .full message context sources =>
    bracketed depth "Error \x7b" "\x7d"
      ["message: " ++ Text.Quoted.quote message,
        "context: " ++ bracketed (depth + 1) "[" "]" (context.map (quotedPair (depth + 2))),
        "sources: " ++ bracketed (depth + 1) "[" "]" (structuredAll (depth + 2) sources)]

/-- Each report as a structure at that depth. -/
def structuredAll (depth : Nat) : List Report → List String
  | [] => []
  | report :: more => structuredAt depth report :: structuredAll depth more

end

def structured (report : Report) : String :=
  structuredAt 0 report

end Report

end LogLayout
