/-
Module: Correlate.Position
Purpose: Spans of source text.
Main exports: Position
-/

namespace Correlate

/-- A span from a start to an end, with lines and columns counted from one. -/
structure Position where
  startLine : Nat
  startColumn : Nat
  endLine : Nat
  endColumn : Nat
deriving DecidableEq, Repr, Inhabited

namespace Position

/-- All of one line, where no column is known. -/
def wholeLine (line : Nat) : Position :=
  ⟨line, 0, line, 0⟩

/-- The span reaches the line. -/
def containsLine (position : Position) (line : Nat) : Bool :=
  position.startLine ≤ line && line ≤ position.endLine

/-- Start and end, each as line and column. -/
def text (position : Position) : String :=
  s!"{position.startLine}:{position.startColumn}-{position.endLine}:{position.endColumn}"

end Position

end Correlate
