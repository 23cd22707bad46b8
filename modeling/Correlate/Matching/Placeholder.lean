/-
Module: Correlate.Matching.Placeholder
Purpose: Stand-ins for compiled elements that nothing in the source was matched with.
Main exports: State.standInForSites
-/
import Correlate.Matching.State
import Correlate.Source.Assembly

namespace Correlate.Matching.State

/-- Let a placeholder stand for a compiled call that is still open, if its line is known. -/
def standInForCall (setting : Setting) (source : Source.Handle .method) (state : State)
    (call : Compiled.Handle .invocation) : State :=
  let record := setting.pool.invocationAt call
  match record.line with
  | some line =>
      if state.isConsumed call then state
      else
        let (file, placeholder) :=
          state.file.addPlaceholderInvocation source record.name record.arity line
        { state with file }.record setting placeholder call
  | none => state

/-- Let a placeholder stand for a compiled allocation that is still open, if its line is known. -/
def standInForAllocation (setting : Setting) (source : Source.Handle .method) (state : State)
    (allocation : Compiled.Handle .allocation) : State :=
  let record := setting.pool.allocationAt allocation
  match record.line with
  | some line =>
      if state.isConsumed allocation then state
      else
        let (file, placeholder) := state.file.addPlaceholderAllocation source record.type line
        { state with file }.record setting placeholder allocation
  | none => state

/-- Let placeholders stand for the open calls and then for the open allocations of a method. -/
def standInForSites (setting : Setting) (state : State) (pair : MethodPair) : State :=
  let (source, compiled) := pair
  let method := setting.pool.methodAt compiled
  method.allocations.foldl (standInForAllocation setting source)
    (method.invocations.foldl (standInForCall setting source) state)

end Correlate.Matching.State
