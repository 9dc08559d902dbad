import LogLayout.Pattern.Compile
import LogLayout.Trap

/-!
# Layouts

A layout formats records by a pattern. Its pattern, its colours and the bindings of its users can
be changed, and each change compiles the pattern anew. Warnings of a successful compilation are
handed to the layout's trap. A change is a call that may fail half-way: that nothing was changed or
handed over by then is a theorem about the calls, not a part of what a call is.
-/

namespace LogLayout

open Palette (ColorOptionError Terminal)
open Pattern (CompileError Compiled Warning)

/-- The pattern that is compiled in place of an empty one. -/
def defaultPattern : String := "%m%n"

structure LayoutConfig where
  pattern : String := ""
  settings : Settings := {}
  /-- The bindings of the user, which come before the built-in ones. -/
  bindings : TokenTable Factory := .empty
  trap : Trap := .console []

structure Layout where
  /-- The pattern as it was given. -/
  pattern : String
  chain : Chain
  warnings : List Warning
  settings : Settings
  bindings : TokenTable Factory
  /-- The built-in bindings with those of the user over them. -/
  table : TokenTable Factory
  trap : Trap

/-- Why a layout could not be built or changed. -/
inductive LayoutError where
  | badPattern (pattern : String) (cause : CompileError)
  | badOption (cause : ColorOptionError)

/-- The report of the problem; a pattern is named as it was given. -/
def LayoutError.report : LayoutError → Report
  | .badPattern pattern cause =>
    .full "failed to compile pattern" [("pattern", pattern)] [cause.report]
  | .badOption cause => cause.report

inductive Change where
  | setPattern (pattern : String)
  | setOption (option value : String)
  | register (tokens : List String) (factory : Factory)

namespace Layout

variable [Libraries]

/-- The built-in bindings for the settings, with the user's bindings over them. -/
def layeredTable (settings : Settings) (bindings : TokenTable Factory) : TokenTable Factory :=
  (directiveTable settings).extend bindings

def compileGiven (table : TokenTable Factory) (pattern : String) :
    Except LayoutError Compiled :=
  let effective := if pattern = "" then defaultPattern else pattern
  (Pattern.compile table effective).mapError (.badPattern pattern)

def warningReport (pattern : String) (warning : Warning) : Report :=
  .of "recovered from malformed pattern"
    [("pattern", pattern), ("problem", warning.message)]

/-- A call on a layout. It succeeds or fails; what it changed before it failed stays changed. -/
abbrev Call := ExceptT LayoutError (StateM Layout) Unit

def hand (report : Report) : Call :=
  modify fun layout => { layout with trap := layout.trap.hand report }

/-- Puts a compiled pattern in place, and hands its warnings to the trap one by one. -/
def install (pattern : String) (compiled : Compiled) : Call := do
  compiled.warnings.forM fun warning => hand (warningReport pattern warning)
  modify fun layout =>
    { layout with
      pattern := pattern
      chain := compiled.chain
      warnings := compiled.warnings }

/-- Builds a layout around a trap. The trap stays with whoever gave it, also when the layout is
not built. -/
def assemble (config : LayoutConfig) : ExceptT LayoutError (StateM Trap) Layout := do
  let table := layeredTable config.settings config.bindings
  let compiled ← compileGiven table config.pattern
  let blank : Layout :=
    { pattern := ""
      chain := []
      warnings := []
      settings := config.settings
      bindings := config.bindings
      table := table
      trap := ← get }
  let (_, layout) := (install config.pattern compiled).run.run blank
  set layout.trap
  return layout

def build (config : LayoutConfig) : Except LayoutError Layout :=
  ((assemble config).run.run config.trap).1

def setPattern (pattern : String) : Call := do
  let layout ← get
  let compiled ← compileGiven layout.table pattern
  install pattern compiled

/-- Replaces settings and bindings, and compiles the pattern again. -/
def reconfigure (settings : Settings) (bindings : TokenTable Factory) : Call := do
  let layout ← get
  let table := layeredTable settings bindings
  let compiled ← compileGiven table layout.pattern
  modify fun layout =>
    { layout with settings := settings, bindings := bindings, table := table }
  install layout.pattern compiled

/-- The settings with a colour set by option name. -/
def recolor (settings : Settings) (option value : String) : Except LayoutError Settings :=
  match settings.colors.setOption option value with
  | .ok colors => .ok { settings with colors := colors }
  | .error e => .error (.badOption e)

def setOption (option value : String) : Call := do
  let layout ← get
  let settings ← recolor layout.settings option value
  reconfigure settings layout.bindings

/-- Binds tokens to a factory, before every binding they had. -/
def register (tokens : List String) (factory : Factory) : Call := do
  let layout ← get
  reconfigure layout.settings (layout.bindings.bind tokens factory)

def change : Change → Call
  | .setPattern pattern => setPattern pattern
  | .setOption option value => setOption option value
  | .register tokens factory => register tokens factory

/-- The layout after a change was tried, and why it failed if it did. -/
def perform (layout : Layout) (c : Change) : Layout × Option LayoutError :=
  match (change c).run.run layout with
  | (.ok (), layout) => (layout, none)
  | (.error e, layout) => (layout, some e)

/-- The layout after changes were tried in order. -/
def run (layout : Layout) (changes : List Change) : Layout :=
  changes.foldl (fun layout c => (layout.perform c).1) layout

/-- The text so far with the record behind it. -/
def formatInto (layout : Layout) (terminal : Terminal) (r : Record) (buffer : String) : String :=
  layout.chain.formatInto terminal r buffer

def format (layout : Layout) (terminal : Terminal) (r : Record) : String :=
  layout.formatInto terminal r ""

def formatBytes (layout : Layout) (terminal : Terminal) (r : Record) : List UInt8 :=
  (layout.format terminal r).toUTF8.toList

end Layout

end LogLayout
