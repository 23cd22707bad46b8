/-
Module: Correlate.Report.Document
Purpose: Reports as documents.
Main exports: Position.document, Diagnostic.document, ReportedElement.document, Report.document,
  Report.text
-/
import Correlate.Json.Writer
import Correlate.Report.Basic

namespace Correlate

/-- Members that are left out where there is no value. -/
def optionalMember {α : Type} (key : String) (encode : α → Json) : Option α → List (String × Json)
  | some value => [(key, encode value)]
  | none => []

def Position.document (position : Position) : Json :=
  .record
    [("start_line", .natural position.startLine), ("start_column", .natural position.startColumn),
     ("end_line", .natural position.endLine), ("end_column", .natural position.endColumn)]

def Diagnostic.document (diagnostic : Diagnostic) : Json :=
  .record
    ([("kind", .text diagnostic.kind.title), ("category", .text diagnostic.category.title),
      ("file", .text diagnostic.file)] ++
     optionalMember "line" .natural diagnostic.line ++
     [("message", .text diagnostic.message)])

def ReportedElement.document (element : ReportedElement) : Json :=
  .record
    ([("file", .text element.file), ("kind", .text element.kind.text), ("name", .text element.name)] ++
     optionalMember "position" Position.document element.position ++
     optionalMember "id" .text element.id ++
     [("authoritative", .bool element.authoritative)] ++
     (if element.paramTypes.isEmpty then []
      else [("paramTypes", .array (element.paramTypes.map .text))]))

namespace Report

/-- Pairs as members of an object. -/
def membersOf {α : Type} (encode : α → Json) (pairs : List (String × α)) : Json :=
  .record (pairs.map fun (key, value) => (key, encode value))

/-- The document of a report.  Targets that were not looked for are left out. -/
def document (report : Report) : Json :=
  .record
    ([("entries", membersOf (fun elements => .array (elements.map ReportedElement.document))
        report.entries),
      ("aliases", membersOf (fun symbols => .array (symbols.map .text)) report.aliases),
      ("diagnostics", .array (report.diagnostics.map Diagnostic.document)),
      ("unmatched", .natural report.unmatched)] ++
     (if report.resolvedTargets.isEmpty then []
      else [("resolvedTargets", membersOf .text report.resolvedTargets)]))

/-- The text of the document. -/
def text (report : Report) : String :=
  report.document.pretty

end Report

end Correlate
