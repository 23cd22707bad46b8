/-
Module: Correlate.Matching.Method
Purpose: Matching the methods of a matched type.
Main exports: State.matchMethods
-/
import Correlate.Matching.State
import Correlate.Source.Resolver

namespace Correlate.Matching

/-!
Methods match by name first.  Where a name has several methods, a method takes the only open one of
the same arity, else the only one of the same arity whose parameter types have the same simple names.
A method that is still open takes the first compiled method whose id its signature may denote.
Constructors of inner types are compared last, with the captured outer instances in front.
-/

/-- The source methods of each name, instance initializer blocks left out: compilation copies these
into the constructors. -/
def methodsByName (file : Source.File) (type : Source.Handle .type) :
    Grouping String (Source.Handle .method) :=
  groupBy (fun method => (file.methodAt method).name)
    ((file.typeAt type).methods.filter fun method =>
      (file.methodAt method).kind ≠ .instanceInitializer)

/-- The compiled methods of each name, bridges left out. -/
def compiledMethodsByName (pool : Compiled.Pool) (type : Compiled.Handle .type) :
    Grouping String (Compiled.Handle .method) :=
  groupBy (fun method => (pool.methodAt method).name)
    ((pool.typeAt type).methods.filter fun method => !(pool.methodAt method).modifiers.isBridge)

/-- The parameter types agree in their simple names, as far as both lists reach.  A parameter without
a declared type agrees with every type. -/
def paramsAgree (spellings : List (Option String)) (types : List String) : Bool :=
  (spellings.zip types).all fun (spelling, type) =>
    spelling.all fun spelling => TypeName.sameInnermost spelling type

/-- The parameters of a constructor are the outer types and then parameters that agree with the
given types. -/
def constructorAgrees (outerTypes : List String) (spellings : List (Option String))
    (params : List String) : Bool :=
  params.length = outerTypes.length + spellings.length &&
    (outerTypes.zip params).all (fun (outer, param) =>
      TypeName.innermost outer == TypeName.innermost param) &&
    paramsAgree spellings (params.drop outerTypes.length)

namespace State

/-- The compiled method that an overloaded method takes: the only open one of its arity, else the
only one of these whose parameter types agree. -/
def overloadCounterpart? (setting : Setting) (candidates : List (Compiled.Handle .method))
    (method : Source.Handle .method) (state : State) : Option (Compiled.Handle .method) :=
  let arity := (state.file.methodAt method).arity
  let sameArity := (state.openOf candidates).filter fun candidate =>
    (setting.pool.methodAt candidate).arity = arity
  match sameArity with
  | [] => none
  | [only] => some only
  | several =>
      let spellings := state.file.paramTypes method
      match several.filter fun candidate =>
        paramsAgree spellings (setting.pool.methodAt candidate).signature.params with
      | [only] => some only
      | _ => none

/-- Match two elements if there is a second one. -/
def recordSome {kind : Compiled.Kind} (setting : Setting) (source : Source.Ref)
    (counterpart : Option (Compiled.Handle kind)) (state : State) : State :=
  match counterpart with
  | some counterpart => state.record setting source counterpart
  | none => state

/-- Match an overloaded method. -/
def matchOverload (setting : Setting) (candidates : List (Compiled.Handle .method)) (state : State)
    (method : Source.Handle .method) : State :=
  state.recordSome setting method (state.overloadCounterpart? setting candidates method)

/-- Match the methods of one name by arity and parameter types.  Constructors of inner types wait. -/
def matchNamed (setting : Setting) (type : Source.Handle .type)
    (compiledType : Compiled.Handle .type)
    (compiled : Grouping String (Compiled.Handle .method)) (state : State)
    (group : String × List (Source.Handle .method)) : State :=
  let (name, sources) := group
  match sources, compiled.members name with
  | first :: _, [] =>
      if ReservedName.isConstructorOrInitializer name then state
      else
        state.noticeAt first (.methodWithoutCounterpart name (state.file.typeAt type).binaryName)
  | [only], [candidate] =>
      if state.isConsumed candidate then state else state.record setting only candidate
  | sources, candidates =>
      if name = ReservedName.constructor && !(setting.pool.typeAt compiledType).outerTypes.isEmpty
      then state
      else sources.foldl (matchOverload setting candidates) state

/-- The first open compiled method whose id the signature of a source method may denote. -/
def signatureCounterpart? (setting : Setting) (type : Source.Handle .type)
    (compiledType : Compiled.Handle .type) (method : Source.Handle .method) (state : State) :
    Option (Compiled.Handle .method) :=
  let record := state.file.methodAt method
  let candidates := state.file.methodCandidates (state.file.typeAt type).binaryName
    record.returnType record.name (state.file.paramTypes method)
  (setting.pool.typeAt compiledType).methods.find? fun candidate =>
    !state.isConsumed candidate && candidates.ids.contains (setting.pool.methodAt candidate).id

/-- Match a method that is still open by what its signature may denote. -/
def matchBySignature (setting : Setting) (type : Source.Handle .type)
    (compiledType : Compiled.Handle .type) (state : State) (method : Source.Handle .method) :
    State :=
  if state.file.isLinked method then state
  else
    state.recordSome setting method
      (state.signatureCounterpart? setting type compiledType method)

/-- The only open compiled constructor that takes the outer instances and then the parameters of a
source constructor. -/
def innerConstructorCounterpart? (setting : Setting) (compiledType : Compiled.Handle .type)
    (constructors : List (Compiled.Handle .method)) (method : Source.Handle .method)
    (state : State) : Option (Compiled.Handle .method) :=
  let outerTypes := (setting.pool.typeAt compiledType).outerTypes
  if outerTypes.isEmpty then none
  else
    let spellings := state.file.paramTypes method
    match (state.openOf constructors).filter fun candidate =>
      constructorAgrees outerTypes spellings (setting.pool.methodAt candidate).signature.params with
    | [only] => some only
    | _ => none

/-- Match a constructor of an inner type that is still open. -/
def matchInnerConstructor (setting : Setting) (compiledType : Compiled.Handle .type)
    (constructors : List (Compiled.Handle .method)) (state : State)
    (method : Source.Handle .method) : State :=
  if state.file.isLinked method then state
  else
    state.recordSome setting method
      (state.innerConstructorCounterpart? setting compiledType constructors method)

/-- Note why a method with compiled methods of its name stays open. -/
def noticeOpenMethod (type : Source.Handle .type)
    (compiled : Grouping String (Compiled.Handle .method)) (name : String) (state : State)
    (method : Source.Handle .method) : State :=
  if state.file.isLinked method || (state.file.methodAt method).implicit then state
  else
    let typeName := (state.file.typeAt type).binaryName
    let candidates := (state.openOf (compiled.members name)).length
    state.noticeAt method
      (if 1 < candidates then .ambiguousMethod name typeName candidates
       else .incompatibleMethod name typeName)

/-- Match the methods of a type. -/
def matchMethods (setting : Setting) (type : Source.Handle .type)
    (compiledType : Compiled.Handle .type) (state : State) : State :=
  let sources := methodsByName state.file type
  let compiled := compiledMethodsByName setting.pool compiledType
  let shared := sources.filter fun (name, _) => !(compiled.members name).isEmpty
  let byName := sources.foldl (matchNamed setting type compiledType compiled) state
  let bySignature := shared.foldl (fun state (_, methods) =>
    methods.foldl (matchBySignature setting type compiledType) state) byName
  let constructors := compiled.members ReservedName.constructor
  let byOuterTypes := (sources.members ReservedName.constructor).foldl
    (matchInnerConstructor setting compiledType constructors) bySignature
  shared.foldl (fun state (name, methods) =>
    methods.foldl (noticeOpenMethod type compiled name) state) byOuterTypes

end State

end Correlate.Matching
