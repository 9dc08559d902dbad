import LogLayout.Converter
import LogLayout.Fitting.Specifier

/-!
# Chains of converters

A compiled pattern is a chain of converters, each with the specifier of its field. Rendering a
record runs the converters in order; what a converter has just written is fitted into its field,
and nothing before it is touched.
-/

namespace LogLayout

open Fitting (Specifier)
open Palette (Terminal)

structure Link where
  converter : Converter
  specifier : Specifier := {}

/-- Converters in the order in which they write. -/
abbrev Chain := List Link

/-- The text so far with the field of one converter behind it. -/
def Link.write [Libraries] (terminal : Terminal) (r : Record) (buffer : String) (link : Link) : String :=
  link.specifier.apply buffer.utf8ByteSize (link.converter.write terminal r buffer)

namespace Chain

/-- The text so far with the record behind it. -/
def formatInto [Libraries] (chain : Chain) (terminal : Terminal) (r : Record) (buffer : String) : String :=
  chain.foldl (Link.write terminal r) buffer

def format [Libraries] (chain : Chain) (terminal : Terminal) (r : Record) : String :=
  chain.formatInto terminal r ""

def specifiers (chain : Chain) : List Specifier :=
  chain.map Link.specifier

/-- The texts of the converters alone, not fitted into their fields. -/
def parts [Libraries] (chain : Chain) (terminal : Terminal) (r : Record) : List String :=
  chain.map fun link => link.converter.write terminal r ""

end Chain

end LogLayout
