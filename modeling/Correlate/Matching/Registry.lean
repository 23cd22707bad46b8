/-
Module: Correlate.Matching.Registry
Purpose: Which compiled elements are taken, and by which source elements.
Main exports: SourceHandle, Registry, Registry.isConsumed, Registry.record?, Registry.merge
-/
import Std.Data.TreeSet
import Correlate.Compiled.Pool
import Correlate.Grouping
import Correlate.Source.File

namespace Correlate.Matching

/-!
A compiled element is taken by at most one source element in a whole run, and a source element takes
at most one compiled element.  A match changes two places together: the registry of the run and the
link of the source element in its file.
-/

/-- A source element of one of the files of a run. -/
structure SourceHandle where
  file : Nat
  element : Source.Ref
deriving DecidableEq, Repr, Inhabited

/-- A match: the compiled element, its id, and the source element that takes it. -/
structure Match where
  compiled : Compiled.Ref
  id : String
  source : SourceHandle
deriving DecidableEq, Repr, Inhabited

/-- The compiled elements that are taken, and the matches in the order in which they were made. -/
structure Registry where
  consumed : Std.TreeSet Compiled.Ref := {}
  log : Array Match := #[]

namespace Registry

instance : Inhabited Registry := ⟨{}⟩

/-- The compiled element is taken. -/
def isConsumed (registry : Registry) (element : Compiled.Ref) : Bool :=
  registry.consumed.contains element

/-- Neither the compiled nor the source element is matched yet. -/
def accepts (registry : Registry) (file : Source.File) (source : Source.Ref)
    (compiled : Compiled.Ref) : Bool :=
  !registry.isConsumed compiled && !file.isLinked source

/-- Match a source element of the file with the given number.  Nothing changes where one of the two
elements is matched already. -/
def record? (pool : Compiled.Pool) (fileIndex : Nat) (source : Source.Ref)
    (compiled : Compiled.Ref) (registry : Registry) (file : Source.File) :
    Option (Registry × Source.File) :=
  if registry.isConsumed compiled then none
  else
    let id := pool.elementId compiled
    (file.setLink? source { compiled, id }).map fun linked =>
      ({ consumed := registry.consumed.insert compiled
         log := registry.log.push { compiled, id, source := ⟨fileIndex, source⟩ } }, linked)

/-- The matches of compiled elements of one kind. -/
def matchesOf (registry : Registry) (kind : Compiled.Kind) : List Match :=
  registry.log.toList.filter (·.compiled.kind = kind)

/-- The number of ids of one kind that are matched. -/
def recorded (registry : Registry) (kind : Compiled.Kind) : Nat :=
  (distinct ((registry.matchesOf kind).map Match.id)).length

/-- The matched source elements by the id of the compiled element, kind after kind. -/
def merge (registry : Registry) : List (String × List SourceHandle) :=
  (groupBy Match.id (Compiled.Kind.all.flatMap registry.matchesOf)).map fun (id, group) =>
    (id, group.map Match.source)

end Registry

end Correlate.Matching
