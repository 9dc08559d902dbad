import LogLayout.Libraries
import LogLayout.Numeral.Count
import LogLayout.Report

/-!
# Rejected options

Why a directive does not accept its options.
-/

namespace LogLayout

open Numeral (CountError)

/-- The options of a directive make no sense to it. -/
inductive OptionError where
  | malformedPrecision (text : String) (problem : CountError)
  | unknownLevelOption (text : String)
  | unknownZone (name : String)
  | malformedDateFormat (format problem : String)
  deriving DecidableEq, Repr

/-- The report of the problem, with what the library for dates says of it. -/
def OptionError.report [Libraries] : OptionError → Report
  | .malformedPrecision text problem =>
    .full "malformed precision" [("precision", text)] [.note problem.message]
  | .unknownLevelOption text => .of "unknown level option" [("option", text)]
  | .unknownZone name =>
    .full "unknown time zone" [("timezone", name)] [.note (Libraries.zoneProblem name)]
  | .malformedDateFormat format problem =>
    .full "malformed date format" [("format", format)] [.note problem]

end LogLayout
