/-
Module: Correlate.Report.Basic
Purpose: The result of a run.
Main exports: Report, Report.ofOutcome, Report.elementCount
-/
import Correlate.Matching.Run
import Correlate.Report.Element
import Correlate.Report.Statistics

namespace Correlate

/-- The result of a run.  Lists of pairs have each key once. -/
structure Report where
  /-- The matched source elements by the id of the compiled element. -/
  entries : List (String × List ReportedElement)
  /-- The symbols of the source variables that each slot stands for. -/
  aliases : List (String × List String)
  diagnostics : List Diagnostic
  /-- How many counted elements are not matched. -/
  unmatched : Nat
  /-- The id of the method that each matched call reaches, by the id of the call. -/
  resolvedTargets : List (String × String)
deriving DecidableEq, Repr, Inhabited

namespace Report

/-- How many source elements are listed. -/
def elementCount (report : Report) : Nat :=
  (report.entries.flatMap Prod.snd).length

/-- The report on a run, after what was found while the compiled code was read. -/
def ofOutcome (plan : Matching.Plan) (found : List Diagnostic) (outcome : Matching.Outcome) :
    Report :=
  let reported := ReportedElement.ofHandle plan.pool plan.options.synthesizeTypes outcome.files
  { entries := outcome.ledger.registry.merge.map fun (id, handles) => (id, handles.map reported)
    aliases := outcome.ledger.aliases.slots
    diagnostics := found ++ outcome.ledger.notices.toList.map Matching.Notice.diagnostic
    unmatched := (Statistics.collect outcome.files).unmatched
    resolvedTargets := outcome.resolvedTargets plan }

end Report

end Correlate
