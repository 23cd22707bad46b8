/-
Module: Correlate.Matching.LineOrder
Purpose: Whether a pairing keeps the order of lines.
Main exports: firstInversion?
-/
import Correlate.Compiled.Pool
import Correlate.Source.File

namespace Correlate.Matching

/-!
Paired by position, two elements must not come in one order in the source and in the opposite order
in the compiled code.  Only pairs with both lines known can tell.
-/

/-- A pair with both lines known, and its place among all pairs. -/
structure LinedPair where
  index : Nat
  sourceLine : Nat
  compiledLine : Nat
deriving DecidableEq, Repr, Inhabited

/-- Two pairs whose lines come in opposite orders. -/
def LinedPair.contradicts (one other : LinedPair) : Bool :=
  (one.sourceLine < other.sourceLine && other.compiledLine < one.compiledLine) ||
    (other.sourceLine < one.sourceLine && one.compiledLine < other.compiledLine)

/-- The pairs with both lines known, where `index` pairs come before the first one. -/
def linedPairs : Nat → List (Option Nat × Option Nat) → List LinedPair
  | _, [] => []
  | index, (some sourceLine, some compiledLine) :: rest =>
      ⟨index, sourceLine, compiledLine⟩ :: linedPairs (index + 1) rest
  | index, _ :: rest => linedPairs (index + 1) rest

/-- The first pair that a later one contradicts, with the first such. -/
def firstContradiction? : List LinedPair → Option (Nat × Nat)
  | [] => none
  | first :: rest =>
      match rest.find? first.contradicts with
      | some other => some (first.index, other.index)
      | none => firstContradiction? rest

/-- The first two places at which lines come in opposite orders. -/
def firstInversion? (lines : List (Option Nat × Option Nat)) : Option (Nat × Nat) :=
  firstContradiction? (linedPairs 0 lines)

/-- The lines of paired elements. -/
def pairLines (file : Source.File) (pool : Compiled.Pool)
    (pairs : List (Source.Ref × Compiled.Ref)) : List (Option Nat × Option Nat) :=
  pairs.map fun (source, compiled) => (file.startLine? source, pool.elementLine compiled)

end Correlate.Matching
