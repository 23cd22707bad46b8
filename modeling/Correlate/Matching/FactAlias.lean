/-
Module: Correlate.Matching.FactAlias
Purpose: The aliases that facts about compiled code reveal.
Main exports: factAliases
-/
import Correlate.Compiled.Pool
import Correlate.Facts.Relation
import Correlate.Matching.Alias
import Correlate.Source.File

namespace Correlate.Matching

/-- The receiver or parameter of a source method that a copy in compiled code starts from.  Captured
values come first in compiled parameters: `captured` is their number. -/
def copiedVariable? (method : Source.Method) (captured : Nat) (copy : LocalCopy) :
    Option (Source.Handle .variable) :=
  match MethodSlot.ofVariableId? copy.source with
  | some .receiver => method.receiver
  | some (.parameter index) =>
      if captured ≤ index then method.params[index - captured]? else none
  | none => none

/-- The alias of a slot, if the file has the variable. -/
def aliasOf? (file : Source.File) (source? : Option (Source.Handle .variable))
    (slot? : Option String) : Option Alias := do
  let handle ← source?
  let slot ← slot?
  pure { slot, symbol := (file.variableAt handle).symbol }

/-- The variables that a matched method copies its receiver and parameters to. -/
def copyAliases (pool : Compiled.Pool) (facts : Facts) (file : Source.File)
    (method : Source.Handle .method) : List Alias :=
  match file.linkedMethod? method with
  | none => []
  | some compiled =>
      let source := file.methodAt method
      let record := pool.methodAt compiled
      let captured := record.params.length - source.params.length
      (facts.copiesIn record.id).filterMap fun copy =>
        aliasOf? file (copiedVariable? source captured copy) (some copy.target)

/-- The base of a matched call, and the variable that its result is assigned to. -/
def callAliases (facts : Facts) (file : Source.File) (call : Source.Handle .invocation) :
    List Alias :=
  match file.link? call with
  | none => []
  | some link =>
      let record := file.invocationAt call
      (aliasOf? file record.base (facts.baseOf? link.id)).toList ++
        (aliasOf? file record.target (facts.returnedBy? link.id)).toList

/-- The variable that the object of a matched allocation is assigned to. -/
def allocationAliases (facts : Facts) (file : Source.File)
    (allocation : Source.Handle .allocation) : List Alias :=
  match file.link? allocation with
  | none => []
  | some link =>
      (aliasOf? file (file.allocationAt allocation).target (facts.createdAt? link.id)).toList

/-- The aliases of a matched file: those of its methods, its lambdas, its calls and its
allocations. -/
def factAliases (pool : Compiled.Pool) (facts : Facts) (file : Source.File) : List Alias :=
  (file.methodHandles false ++ file.methodHandles true).flatMap (copyAliases pool facts file) ++
    file.invocationHandles.flatMap (callAliases facts file) ++
    file.allocationHandles.flatMap (allocationAliases facts file)

end Correlate.Matching
