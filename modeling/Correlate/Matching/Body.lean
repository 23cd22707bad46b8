/-
Module: Correlate.Matching.Body
Purpose: Matching the elements in the body of a matched method.
Main exports: State.matchBody
-/
import Correlate.Matching.Allocation
import Correlate.Matching.Call
import Correlate.Matching.FieldAccess

namespace Correlate.Matching.State

/-! ### Casts and method references -/

/-- Match the casts of a method, where both sides have equally many. -/
def matchCasts (setting : Setting) (source : Source.Handle .method)
    (compiled : Compiled.Handle .method) (state : State) : State :=
  let sources := (state.file.methodAt source).casts
  let candidates := state.openOf (setting.pool.methodAt compiled).casts
  match sources with
  | [] => state
  | first :: _ =>
      if sources.length = candidates.length then
        state.pairGroup setting "casts" (zipRefs sources candidates)
      else state.noticeAt first (.castCount sources.length candidates.length)

/-- The source method references of a method by name. -/
def sourceReferences (source : Source.Handle .method) (state : State) :
    Grouping String (Source.Handle .methodRef) :=
  groupBy (fun reference => (state.file.methodRefAt reference).name)
    (state.file.methodAt source).methodRefs

/-- The open compiled method references of a method by name. -/
def openReferences (setting : Setting) (compiled : Compiled.Handle .method) (state : State) :
    Grouping String (Compiled.Handle .methodRef) :=
  groupBy (fun reference => (setting.pool.methodRefAt reference).name)
    (state.openOf (setting.pool.methodAt compiled).methodRefs)

/-- Match the references to one name, where both sides have equally many. -/
def matchReferenceGroup (setting : Setting)
    (candidates : Grouping String (Compiled.Handle .methodRef)) (state : State)
    (group : String × List (Source.Handle .methodRef)) : State :=
  let (name, sources) := group
  let compiled := candidates.members name
  if compiled.length = sources.length then
    state.pairGroup setting s!"references to {name}" (zipRefs sources compiled)
  else
    let line := (sources.head?).bind fun first => state.file.startLine? first
    state.notice line (.referenceCount name sources.length compiled.length)

/-- Match the method references of a method. -/
def matchReferences (setting : Setting) (source : Source.Handle .method)
    (compiled : Compiled.Handle .method) (state : State) : State :=
  (state.sourceReferences source).foldl
    (matchReferenceGroup setting (state.openReferences setting compiled)) state

/-! ### Lambdas -/

/-- Match a lambda with the method that implements it and then, if that succeeds, their bodies. -/
def matchLambda (setting : Setting)
    (bodies : Source.Handle .method → Compiled.Handle .method → State → State) (state : State)
    (pair : Source.Handle .method × Compiled.Handle .lambda) : State :=
  let (lambda, place) := pair
  let site := setting.pool.lambdaAt place
  match site.implementation with
  | none => state.noticeAt lambda (.missingImplementation site.implementationId)
  | some implementation =>
      let declared := (state.file.methodAt lambda).arity
      let compiled := setting.pool.methodAt implementation
      if compiled.arity < declared then
        state.noticeAt lambda (.lambdaArity declared compiled.id compiled.arity)
      else
        let matched := state.record setting lambda implementation
        if state.accepts lambda implementation then bodies lambda implementation matched
        else matched

/-- Match the lambdas of a method position by position, where both sides have equally many. -/
def matchLambdas (setting : Setting)
    (bodies : Source.Handle .method → Compiled.Handle .method → State → State)
    (source : Source.Handle .method) (compiled : Compiled.Handle .method) (state : State) : State :=
  let lambdas := (state.file.methodAt source).lambdas
  let places := (setting.pool.methodAt compiled).lambdas
  if lambdas.length = places.length then
    (lambdas.zip places).foldl (matchLambda setting bodies) state
  else
    match lambdas with
    | [] => state
    | first :: _ => state.noticeAt first (.lambdaCount lambdas.length places.length)

/-! ### Bodies -/

/-- Remember that the bodies of two methods are matched. -/
def addPair (pair : MethodPair) (state : State) : State :=
  { state with pairs := state.pairs ++ [pair] }

/-- Match the variables and the elements of two bodies, all but the lambdas. -/
def matchStatements (setting : Setting) (source : Source.Handle .method)
    (compiled : Compiled.Handle .method) (state : State) : State :=
  (((((((state.addPair (source, compiled)).matchVariables setting source compiled
    ).matchCalls setting source compiled
    ).aliasCallBases setting source compiled
    ).matchAllocations setting source compiled
    ).matchFieldAccesses setting source compiled
    ).matchCasts setting source compiled
    ).matchReferences setting source compiled

/-- Match the bodies of two methods and of the lambdas in them.  The budget bounds the nesting of
lambdas. -/
def matchBody (setting : Setting) : Nat → Source.Handle .method → Compiled.Handle .method →
    State → State
  | 0, source, _, state => state.noticeAt source .deepLambda
  | budget + 1, source, compiled, state =>
      (state.matchStatements setting source compiled).matchLambdas setting
        (matchBody setting budget) source compiled

end Correlate.Matching.State
