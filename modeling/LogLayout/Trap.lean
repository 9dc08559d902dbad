import LogLayout.Report

/-!
# Traps

A layout cannot log the problems that it recovers from. It hands their reports to its trap, which
prints them, drops them or keeps them. Whatever becomes of the reports, a trap lists those it was
handed.
-/

namespace LogLayout

/-- What becomes of the reports that a trap is handed. -/
inductive TrapKind where
  /-- They become lines of the error stream. -/
  | console
  /-- They are dropped. -/
  | discard
  /-- They are kept. -/
  | collector
  deriving DecidableEq, Repr

/-- Where reports of recovered problems go. -/
structure Trap where
  kind : TrapKind
  /-- The reports so far, in order. -/
  handed : List Report
  deriving Repr

namespace Trap

@[match_pattern]
abbrev console (handed : List Report) : Trap := ⟨.console, handed⟩

def discard : Trap := ⟨.discard, []⟩

@[match_pattern]
abbrev collector (handed : List Report) : Trap := ⟨.collector, handed⟩

/-- The trap after it was handed one more report. -/
def hand (trap : Trap) (report : Report) : Trap :=
  { trap with handed := trap.handed ++ [report] }

/-- The lines on the error stream. -/
def lines (trap : Trap) : List String :=
  match trap.kind with
  | .console => trap.handed.map Report.display
  | _ => []

/-- The reports that were kept. -/
def received (trap : Trap) : List Report :=
  match trap.kind with
  | .collector => trap.handed
  | _ => []

end Trap

end LogLayout
