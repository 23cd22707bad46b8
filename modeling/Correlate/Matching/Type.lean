/-
Module: Correlate.Matching.Type
Purpose: Matching the types of a file.
Main exports: State.matchType, State.matchTypes
-/
import Correlate.Matching.Body
import Correlate.Matching.Field
import Correlate.Matching.Method
import Correlate.Matching.Placeholder
import Correlate.Matching.TypeUse

namespace Correlate.Matching.State

/-- Match the body of a method that is matched itself. -/
def matchMethodBody (setting : Setting) (state : State) (method : Source.Handle .method) : State :=
  match state.file.linkedMethod? method with
  | some compiled => state.matchBody setting (maxLambdaNesting + 1) method compiled
  | none => state

/-- Match the bodies of the methods of a type. -/
def matchBodies (setting : Setting) (type : Source.Handle .type) (state : State) : State :=
  (state.file.typeAt type).methods.foldl (matchMethodBody setting) { state with pairs := [] }

/-- Take a step for every pair of methods whose bodies were matched. -/
def forPairs (step : State → MethodPair → State) (state : State) : State :=
  state.pairs.foldl step state

/-- Match the members of two matched types, then the bodies, then what no single body settles, and
let placeholders stand for the rest. -/
def matchMembers (setting : Setting) (type : Source.Handle .type)
    (compiledType : Compiled.Handle .type) (state : State) : State :=
  let state := state.matchFields setting type compiledType
  let state := state.matchMethods setting type compiledType
  let state := state.matchBodies setting type
  let state := state.forPairs (matchOuterThis setting)
  let state := state.forPairs (matchReflectiveArrays setting)
  let state := state.forPairs (standInForSites setting)
  { state with file := resolveUsages setting.pool type compiledType state.file }

/-- Match a type with the compiled type of its binary name, and then their members. -/
def matchType (setting : Setting) (state : State) (type : Source.Handle .type) : State :=
  match setting.pool.typeNamed? (state.file.typeAt type).binaryName with
  | some compiledType =>
      let matched := state.record setting type compiledType
      if state.accepts type compiledType then matched.matchMembers setting type compiledType
      else matched
  | none => state

/-- Match the types of the file in document order. -/
def matchTypes (setting : Setting) (state : State) : State :=
  state.file.typeHandles.foldl (matchType setting) state

end Correlate.Matching.State
