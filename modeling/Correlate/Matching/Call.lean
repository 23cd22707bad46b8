/-
Module: Correlate.Matching.Call
Purpose: Matching the variables and the calls of a matched method.
Main exports: State.matchVariables, State.matchCalls, State.aliasCallBases
-/
import Correlate.Matching.State

namespace Correlate.Matching.State

/-! ### Variables -/

/-- Match a receiver or parameter and note that it stands for the slot. -/
def matchVariable (setting : Setting) (state : State)
    (pair : Source.Handle .variable × Compiled.Handle .variable) : State :=
  let (source, compiled) := pair
  let matched := state.record setting source compiled
  if state.accepts source compiled then
    matched.addAlias (state.file.variableAt source).symbol (setting.pool.variableAt compiled).id
  else matched

/-- The receivers of two methods, if both have one, and the parameters.  Captured values come first
in compiled parameters, so the parameters are paired from the last one on; none are paired where the
compiled method has fewer. -/
def variablePairs (setting : Setting) (source : Source.Handle .method)
    (compiled : Compiled.Handle .method) (state : State) :
    List (Source.Handle .variable × Compiled.Handle .variable) :=
  let sourceMethod := state.file.methodAt source
  let compiledMethod := setting.pool.methodAt compiled
  let receivers := sourceMethod.receiver.toList.zip compiledMethod.receiver.toList
  let params :=
    if sourceMethod.params.length ≤ compiledMethod.params.length then
      sourceMethod.params.zip
        (compiledMethod.params.drop (compiledMethod.params.length - sourceMethod.params.length))
    else []
  receivers ++ params

/-- Match the receiver and the parameters of a method. -/
def matchVariables (setting : Setting) (source : Source.Handle .method)
    (compiled : Compiled.Handle .method) (state : State) : State :=
  (state.variablePairs setting source compiled).foldl (matchVariable setting) state

/-! ### Calls -/

/-- What calls are grouped by: the name of the called method and the number of arguments. -/
abbrev CallKey := String × Nat

/-- The source calls of a method in groups. -/
def sourceCalls (source : Source.Handle .method) (state : State) :
    Grouping CallKey (Source.Handle .invocation) :=
  groupBy (fun call => ((state.file.invocationAt call).name, (state.file.invocationAt call).arity))
    (state.file.methodAt source).invocations

/-- The open compiled calls of a method in groups. -/
def openCalls (setting : Setting) (compiled : Compiled.Handle .method) (state : State) :
    Grouping CallKey (Compiled.Handle .invocation) :=
  groupBy (fun call =>
      ((setting.pool.invocationAt call).name, (setting.pool.invocationAt call).arity))
    (state.openOf (setting.pool.methodAt compiled).invocations)

/-- The name of a group of calls in messages. -/
def callGroup (key : CallKey) : String :=
  s!"calls to {key.1}/{key.2}"

/-- The open compiled calls of a group on a line. -/
def openCallsOnLine (setting : Setting) (compiled : Compiled.Handle .method) (key : CallKey)
    (line : Nat) (state : State) : List (Compiled.Handle .invocation) :=
  (state.openOf (setting.pool.methodAt compiled).invocations).filter fun call =>
    let record := setting.pool.invocationAt call
    record.line = some line && record.name = key.1 && record.arity = key.2

/-- Match the only call of a group on a line with the only open compiled one there. -/
def matchCallOnLine (setting : Setting) (compiled : Compiled.Handle .method) (key : CallKey)
    (state : State) (onLine : Option Nat × List (Source.Handle .invocation)) : State :=
  match onLine with
  | (some line, [call]) =>
      match state.openCallsOnLine setting compiled key line with
      | [only] => state.record setting call only
      | _ => state
  | _ => state

/-- Match the open calls of a group line by line. -/
def matchCallsByLine (setting : Setting) (compiled : Compiled.Handle .method) (key : CallKey)
    (sources : List (Source.Handle .invocation)) (state : State) : State :=
  let lined := sources.filter fun call : Source.Handle .invocation =>
    (state.file.startLine? call).isSome && !state.file.isLinked call
  (groupBy (fun call : Source.Handle .invocation => state.file.startLine? call) lined).foldl
    (matchCallOnLine setting compiled key) state

/-- Match a group of calls with the open compiled calls that fit, if these are as many; otherwise the
lines have to tell. -/
def settleRegrouped (setting : Setting) (compiled : Compiled.Handle .method) (state : State)
    (group : CallKey × List (Source.Handle .invocation)) : State :=
  let (key, sources) := group
  let regrouped := setting.arities.regroup setting.pool state.registry compiled key.1 key.2
  if regrouped.length = sources.length then
    state.pairGroup setting (callGroup key) (zipRefs sources regrouped)
  else
    let line := (sources.head?).bind fun call => state.file.startLine? call
    (state.notice line (.callCount (callGroup key) sources.length regrouped.length)).matchCallsByLine
      setting compiled key sources

/-- Match a group of calls whose size on the compiled side differs.  Calls of variable arity may make
up for the difference, unless the number after that of the arguments is asked for and is no word. -/
def settleCalls (setting : Setting) (compiled : Compiled.Handle .method) (state : State)
    (group : CallKey × List (Source.Handle .invocation)) : State :=
  let answer := setting.arities.regroup? setting.pool state.registry compiled group.1.1 group.1.2
  (state.noteOverflow answer.isNone).settleRegrouped setting compiled group

/-- Match the calls of a method: groups of the same size first, then all others. -/
def matchCalls (setting : Setting) (source : Source.Handle .method)
    (compiled : Compiled.Handle .method) (state : State) : State :=
  let candidates := state.openCalls setting compiled
  let (even, uneven) := (state.sourceCalls source).partition fun (key, sources) =>
    (candidates.members key).length = sources.length
  let paired := even.foldl (fun state (key, sources) =>
    state.pairGroup setting (callGroup key) (zipRefs sources (candidates.members key))) state
  uneven.foldl (settleCalls setting compiled) paired

/-- Note the slot that the base of a matched call stands for: the matched slot of a receiver or
parameter, else a slot of the compiled method with the name of the variable. -/
def aliasCallBase (setting : Setting) (compiled : Compiled.Handle .method) (state : State)
    (call : Source.Handle .invocation) : State :=
  match (state.file.invocationAt call).base with
  | some base =>
      if state.file.isLinked call then
        let record := state.file.variableAt base
        let slot := match state.file.link? base with
          | some link => link.id
          | none => s!"{(setting.pool.methodAt compiled).id}/{record.name}"
        state.addAlias record.symbol slot
      else state
  | none => state

/-- Note the slots of the bases of all matched calls of a method. -/
def aliasCallBases (setting : Setting) (source : Source.Handle .method)
    (compiled : Compiled.Handle .method) (state : State) : State :=
  (state.file.methodAt source).invocations.foldl (aliasCallBase setting compiled) state

end Correlate.Matching.State
