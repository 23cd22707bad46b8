/-
Module: Correlate.Diagnostic
Purpose: What a run reports about elements it could not match.
Main exports: DiagnosticKind, DiagnosticCategory, Diagnostic
-/

namespace Correlate

/-- How grave a diagnostic is. -/
inductive DiagnosticCategory where
  | warning
  | error
  | message
deriving DecidableEq, Repr, Inhabited

/-- The name of a category in reports. -/
def DiagnosticCategory.title : DiagnosticCategory → String
  | .warning => "Warning"
  | .error => "Error"
  | .message => "Message"

/-- What went wrong. -/
inductive DiagnosticKind where
  /-- Group sizes, arities or access kinds disagree. -/
  | structuralMismatch
  /-- Several candidates are equally good. -/
  | ambiguity
  /-- A compiled method that is referred to does not exist. -/
  | missingInput
  /-- A source construct that is not matched at all. -/
  | unsupportedConstruct
  /-- Source order contradicts the order of the compiled elements. -/
  | orderingViolation
  /-- An element was offered a second match. -/
  | redundantMatch
deriving DecidableEq, Repr, Inhabited

namespace DiagnosticKind

/-- All kinds, in the order in which they are listed. -/
def all : List DiagnosticKind :=
  [.structuralMismatch, .ambiguity, .missingInput, .unsupportedConstruct, .orderingViolation,
   .redundantMatch]

/-- A missing input is an error and all else a warning. -/
def category : DiagnosticKind → DiagnosticCategory
  | .missingInput => .error
  | _ => .warning

/-- The name of a kind in running text. -/
def text : DiagnosticKind → String
  | .structuralMismatch => "structural-mismatch"
  | .ambiguity => "ambiguity"
  | .missingInput => "missing-input"
  | .unsupportedConstruct => "unsupported-construct"
  | .orderingViolation => "ordering-violation"
  | .redundantMatch => "redundant-match"

/-- The name of a kind in reports. -/
def title : DiagnosticKind → String
  | .structuralMismatch => "StructuralMismatch"
  | .ambiguity => "Ambiguity"
  | .missingInput => "MissingInput"
  | .unsupportedConstruct => "UnsupportedConstruct"
  | .orderingViolation => "OrderingViolation"
  | .redundantMatch => "RedundantMatch"

/-- The kind with the given name in running text. -/
def ofText? (name : String) : Option DiagnosticKind :=
  all.find? (·.text == name)

end DiagnosticKind

/-- A diagnostic about a file, or about a compiled type where no file is known. -/
structure Diagnostic where
  kind : DiagnosticKind
  file : String
  line : Option Nat := none
  message : String
deriving DecidableEq, Repr, Inhabited

namespace Diagnostic

/-- How grave the diagnostic is. -/
def category (diagnostic : Diagnostic) : DiagnosticCategory :=
  diagnostic.kind.category

/-- The file, and the line after a colon if it is known. -/
def location (diagnostic : Diagnostic) : String :=
  match diagnostic.line with
  | some line => s!"{diagnostic.file}:{line}"
  | none => diagnostic.file

/-- One line of text. -/
def text (diagnostic : Diagnostic) : String :=
  s!"{diagnostic.location}: [{diagnostic.kind.text}] {diagnostic.message}"

/-- How many diagnostics of a list have the given kind. -/
def count (kind : DiagnosticKind) (diagnostics : List Diagnostic) : Nat :=
  diagnostics.countP (·.kind = kind)

end Diagnostic

end Correlate
