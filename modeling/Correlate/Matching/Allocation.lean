/-
Module: Correlate.Matching.Allocation
Purpose: Matching the allocations of a matched method.
Main exports: State.matchAllocations, State.matchReflectiveArrays
-/
import Correlate.Matching.State

namespace Correlate.Matching

/-- What source allocations are grouped by: the innermost simple name of the element type and the
written dimensions. -/
def allocationKey (allocation : Source.Allocation) : String :=
  TypeName.element (TypeName.innermostOfSource allocation.type) ++
    TypeName.dimensionText allocation.dimensions

/-- What compiled allocations are grouped by: the innermost simple name of the type. -/
def compiledAllocationKey (allocation : Compiled.Allocation) : String :=
  TypeName.innermost allocation.type

namespace State

/-- The source allocations of a method in groups. -/
def sourceAllocations (source : Source.Handle .method) (state : State) :
    Grouping String (Source.Handle .allocation) :=
  groupBy (fun allocation => allocationKey (state.file.allocationAt allocation))
    (state.file.methodAt source).allocations

/-- The open compiled allocations of a method in groups. -/
def openAllocations (setting : Setting) (compiled : Compiled.Handle .method) (state : State) :
    Grouping String (Compiled.Handle .allocation) :=
  groupBy (fun allocation => compiledAllocationKey (setting.pool.allocationAt allocation))
    (state.openOf (setting.pool.methodAt compiled).allocations)

/-- Match an allocation that is the only one of its group on its line with the first open compiled
one of the group on that line. -/
def matchAllocationOnLine (setting : Setting) (sources : List (Source.Handle .allocation))
    (candidates : List (Compiled.Handle .allocation)) (state : State)
    (allocation : Source.Handle .allocation) : State :=
  match state.file.startLine? allocation with
  | none => state
  | some line =>
      let onLine := sources.countP fun other : Source.Handle .allocation =>
        state.file.startLine? other = some line
      let counterpart := candidates.find? fun candidate : Compiled.Handle .allocation =>
        !state.isConsumed candidate && (setting.pool.allocationAt candidate).line = some line
      match counterpart with
      | some counterpart => if onLine = 1 then state.record setting allocation counterpart else state
      | none => state

/-- Match a group of allocations.  Where the sizes differ, an array of several dimensions without a
compiled allocation may have been created by a call and is not reported. -/
def matchAllocationGroup (setting : Setting) (candidates : Grouping String (Compiled.Handle .allocation))
    (state : State) (group : String × List (Source.Handle .allocation)) : State :=
  let (key, sources) := group
  let compiled := candidates.members key
  if compiled.length = sources.length then
    state.pairGroup setting s!"allocations of {key}" (zipRefs sources compiled)
  else
    let byCall := compiled.isEmpty && sources.head?.any fun first =>
      1 < (state.file.allocationAt first).dimensions
    let line := (sources.head?).bind fun first => state.file.startLine? first
    let noted :=
      if byCall then state
      else state.notice line (.allocationCount key sources.length compiled.length)
    if setting.options.lossy then
      sources.foldl (matchAllocationOnLine setting sources compiled) noted
    else noted

/-- Match the allocations of a method. -/
def matchAllocations (setting : Setting) (source : Source.Handle .method)
    (compiled : Compiled.Handle .method) (state : State) : State :=
  (state.sourceAllocations source).foldl
    (matchAllocationGroup setting (state.openAllocations setting compiled)) state

/-- The open allocations of several dimensions in a source method. -/
def openArrays (source : Source.Handle .method) (state : State) :
    List (Source.Handle .allocation) :=
  (state.file.methodAt source).allocations.filter fun allocation : Source.Handle .allocation =>
    1 < (state.file.allocationAt allocation).dimensions && !state.file.isLinked allocation

/-- The open compiled calls that create arrays. -/
def openArrayCalls (setting : Setting) (compiled : Compiled.Handle .method) (state : State) :
    List (Compiled.Handle .invocation) :=
  (state.openOf (setting.pool.methodAt compiled).invocations).filter fun call =>
    (setting.pool.invocationAt call).namingId == ReservedName.reflectiveArrayFactory

/-- Match the open arrays of several dimensions of a method with calls that create arrays, where
there are equally many of both. -/
def matchReflectiveArrays (setting : Setting) (state : State) (pair : MethodPair) : State :=
  let sources := state.openArrays pair.1
  let compiled := state.openArrayCalls setting pair.2
  if !sources.isEmpty && sources.length = compiled.length then
    state.pairGroup setting "reflective array creations" (zipRefs sources compiled)
  else state

end State

end Correlate.Matching
