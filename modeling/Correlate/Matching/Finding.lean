/-
Module: Correlate.Matching.Finding
Purpose: Why elements stay unmatched.
Main exports: Finding, Finding.kind, Finding.message, Notice, Notice.diagnostic
-/
import Correlate.Diagnostic
import Correlate.ElementKind

namespace Correlate.Matching

/-- Why a match was not made. -/
inductive Finding where
  /-- One of two elements was matched before. -/
  | alreadyMatched (kind : ElementKind) (label compiledId : String)
  /-- Two elements of a group come in opposite orders on the two sides. -/
  | disorder (group : String) (first second : Nat)
  | methodWithoutCounterpart (name type : String)
  | ambiguousMethod (name type : String) (candidates : Nat)
  | incompatibleMethod (name type : String)
  | deepLambda
  | callCount (group : String) (source compiled : Nat)
  | allocationCount (key : String) (source compiled : Nat)
  /-- Accesses of one field pair up, but a read pairs with a write. -/
  | accessKinds (field : String)
  | accessCount (field : String) (kind : AccessKind) (source compiled : Nat)
  | castCount (source compiled : Nat)
  | referenceCount (name : String) (source compiled : Nat)
  | lambdaCount (source compiled : Nat)
  | missingImplementation (id : String)
  /-- A lambda declares more parameters than its implementation. -/
  | lambdaArity (source : Nat) (id : String) (compiled : Nat)
deriving DecidableEq, Repr, Inhabited

namespace Finding

/-- The kind of diagnostic that a finding is reported as. -/
def kind : Finding → DiagnosticKind
  | .alreadyMatched .. => .redundantMatch
  | .disorder .. => .orderingViolation
  | .ambiguousMethod .. => .ambiguity
  | .deepLambda => .unsupportedConstruct
  | .missingImplementation .. => .missingInput
  | _ => .structuralMismatch

/-- The wording of a finding. -/
def message : Finding → String
  | .alreadyMatched kind label compiledId =>
      s!"{kind.text} '{label}' cannot be matched with {compiledId}: already matched"
  | .disorder group first second =>
      s!"{group}: elements {first} and {second} appear in a different order than in the IR; " ++
        "group abandoned"
  | .methodWithoutCounterpart name type => s!"method '{name}' of {type} has no IR counterpart"
  | .ambiguousMethod name type candidates =>
      s!"method '{name}' of {type}: {candidates} IR candidates, none preferred"
  | .incompatibleMethod name type =>
      s!"method '{name}' of {type}: no IR method with a compatible signature"
  | .deepLambda => s!"lambdas nested deeper than {maxLambdaNesting} levels are not matched"
  | .callCount group source compiled =>
      s!"{group}: {source} in source, {compiled} in IR; pairing by line"
  | .allocationCount key source compiled =>
      s!"allocations of {key}: {source} in source, {compiled} in IR"
  | .accessKinds field =>
      s!"accesses of field '{field}': read/write kinds disagree; group abandoned"
  | .accessCount field kind source compiled =>
      s!"accesses of field '{field}' ({kind.title}): {source} in source, {compiled} in IR"
  | .castCount source compiled => s!"casts: {source} in source, {compiled} in IR"
  | .referenceCount name source compiled =>
      s!"references to '{name}': {source} in source, {compiled} in IR"
  | .lambdaCount source compiled => s!"lambdas: {source} in source, {compiled} in IR"
  | .missingImplementation id => s!"lambda implementation {id} not found"
  | .lambdaArity source id compiled =>
      s!"lambda takes {source} parameters but {id} takes {compiled}"

end Finding

/-- A finding in a file, at a line if that is known. -/
structure Notice where
  file : String
  line : Option Nat
  finding : Finding
deriving DecidableEq, Repr, Inhabited

/-- The diagnostic that reports a notice. -/
def Notice.diagnostic (notice : Notice) : Diagnostic :=
  { kind := notice.finding.kind
    file := notice.file
    line := notice.line
    message := notice.finding.message }

end Correlate.Matching
