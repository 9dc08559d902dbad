import LogLayout.Pattern.Item
import LogLayout.Pattern.Parser

/-!
# Compiling a pattern

A pattern is compiled against a table of factories: literal text becomes a literal converter, and
a directive the converter that its factory makes from its options. Malformed text never fails; only
a factory that rejects its options does, and the leftmost one is reported.

The parser does this in one pass. What it comes to is told by the pieces of the pattern and the
links of the items that they make up.
-/

namespace LogLayout.Pattern

def Item.link : Item Factory → Except CompileError Link
  | .text run => .ok ⟨.literal (String.ofList run), {}⟩
  | .directive offset d =>
    match d.value d.options.options with
    | .ok converter => .ok ⟨converter, d.modifiers.specifier⟩
    | .error cause => .error ⟨String.ofList d.token, offset, cause⟩

/-- What the parser comes to. It always comes to something, so there is nothing to say of the other
case. -/
def compile (table : TokenTable Factory) (pattern : String) : Except CompileError Compiled :=
  (parse? table pattern).getD (.ok ⟨[], []⟩)

end LogLayout.Pattern
