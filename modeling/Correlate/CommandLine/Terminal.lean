/-
Module: Correlate.CommandLine.Terminal
Purpose: What a run prints.
Main exports: Terminal.diagnostics, Terminal.summary, Terminal.statistics, LogFormat
-/
import Correlate.Report.Basic
import Correlate.Text.Blank

namespace Correlate.CommandLine

/-- The format of log lines. -/
inductive LogFormat where
  | text
  | tree
  | json
deriving DecidableEq, Repr, Inhabited

/-- The format with the given name, blanks around it and capitals aside; all other names stand for
plain text. -/
def LogFormat.parse (name : String) : LogFormat :=
  match .ofList ((Text.trimBlanks name.toList).map Char.toLower) with
  | "tree" => .tree
  | "json" => .json
  | _ => .text

/-- Where a run prints to. -/
structure Terminal where
  color : Bool
deriving DecidableEq, Repr, Inhabited

namespace Terminal

/-- Ends a painted piece of text. -/
def plainAgain : String := "\x1b[0m"

/-- A piece of text in a style, if the terminal has colors.  Where the text itself ends a style, the
style goes on after that. -/
def paint (terminal : Terminal) (codes text : String) : String :=
  if terminal.color then
    let start := "\x1b[" ++ codes ++ "m"
    start ++ text.replace plainAgain (plainAgain ++ start) ++ plainAgain
  else text

/-- The name of a category. -/
def categoryName : DiagnosticCategory → String
  | .error => "error"
  | .warning => "warning"
  | .message => "message"

/-- The style of a category. -/
def categoryCodes : DiagnosticCategory → String
  | .error => "1;31"
  | .warning => "1;33"
  | .message => "1;36"

/-- Where a diagnostic points to. -/
def location (terminal : Terminal) (diagnostic : Diagnostic) : String :=
  if diagnostic.file.isEmpty then "<unknown>" else terminal.paint "36" diagnostic.location

/-- A diagnostic: the place, the category, the kind and the message. -/
def diagnostic (terminal : Terminal) (diagnostic : Diagnostic) : String :=
  let category :=
    terminal.paint (categoryCodes diagnostic.category) (categoryName diagnostic.category)
  let kind := terminal.paint "94" diagnostic.kind.text
  s!"{terminal.location diagnostic} - {category} {kind}: {diagnostic.message}"

/-- Diagnostics, one a line. -/
def diagnostics (terminal : Terminal) (diagnostics : List Diagnostic) : String :=
  "\n".intercalate (diagnostics.map terminal.diagnostic)

/-- What a report contains, in one line. -/
def summary (terminal : Terminal) (report : Report) : String :=
  let unmatched := s!"{report.unmatched} unmatched"
  let unmatched := if 0 < report.unmatched then terminal.paint "1;33" unmatched else unmatched
  s!"{report.entries.length} IR ids, {report.elementCount} source elements matched, " ++
    s!"{unmatched}, {report.diagnostics.length} diagnostics"

/-- The table of statistics. -/
def statistics (terminal : Terminal) (statistics : Statistics) : String :=
  terminal.paint "36" statistics.table

end Terminal

end Correlate.CommandLine
