/-
Module: Correlate.Compiled.Model
Purpose: Documents that describe compiled code.
Main exports: Model, Model.ofJson?, Model.load, LoadError
-/
import Correlate.Compiled.Builder
import Correlate.Json.Decode
import Correlate.Json.Reader

namespace Correlate.Compiled

/-!
A model lists types with their members.  The body of a method lists its elements kind by kind, each
kind in order of appearance.  Members of unknown name are skipped.
-/

structure FieldModel where
  name : String
  type : String
  modifiers : List String := []
deriving DecidableEq, Repr, Inhabited

structure InvocationModel where
  targetType : String
  signature : Signature
  line : Option Nat := none
deriving DecidableEq, Repr, Inhabited

/-- An allocation or a cast: a type and a line. -/
structure SiteModel where
  type : String
  line : Option Nat := none
deriving DecidableEq, Repr, Inhabited

structure FieldAccessModel where
  name : String
  type : Option String := none
  kind : AccessKind
  line : Option Nat := none
deriving DecidableEq, Repr, Inhabited

structure MethodRefModel where
  targetType : Option String := none
  name : String
  line : Option Nat := none
deriving DecidableEq, Repr, Inhabited

structure LambdaModel where
  implementation : String
  line : Option Nat := none
deriving DecidableEq, Repr, Inhabited

structure BodyModel where
  invocations : List InvocationModel := []
  allocations : List SiteModel := []
  fieldAccesses : List FieldAccessModel := []
  methodRefs : List MethodRefModel := []
  casts : List SiteModel := []
  lambdas : List LambdaModel := []
deriving DecidableEq, Repr, Inhabited

structure MethodModel where
  signature : Signature
  modifiers : List String := []
  line : Option Nat := none
  body : BodyModel := {}
deriving DecidableEq, Repr, Inhabited

structure TypeModel where
  id : String
  line : Option Nat := none
  modifiers : List String := []
  superTypes : List String := []
  annotations : List String := []
  referencedTypes : List String := []
  fields : List FieldModel := []
  methods : List MethodModel := []
deriving DecidableEq, Repr, Inhabited

/-- A description of compiled types. -/
structure Model where
  types : List TypeModel := []
deriving DecidableEq, Repr, Inhabited

/-! ### Reading -/

section Decoding

open Json

/-- The texts of a list that may be missing. -/
def texts? : FieldValue → Option (List String) :=
  defaulted? [] (list? text?)

/-- The entries of a list that may be missing. -/
def entries? {α : Type} (decode : Json → Option α) : FieldValue → Option (List α) :=
  defaulted? [] (list? decode)

/-- A line hint. -/
def line? : FieldValue → Option (Option Nat) :=
  optional? word32?

/-- An access kind: its name, or an object with its name as the only key and no value. -/
def accessKind? (isBlankValue : Json → Bool) : Json → Option AccessKind
  | .string content => content.bind AccessKind.ofText?
  | .object [(key, value)] => if isBlankValue value then key.bind AccessKind.ofText? else none
  | _ => none

def FieldModel.ofJson? (json : Json) : Option FieldModel := do
  let [name, type, modifiers] ← fields? false ["name", "type", "modifiers"] json | none
  pure { name := ← required? text? name
         type := ← required? text? type
         modifiers := ← texts? modifiers }

def InvocationModel.ofJson? (json : Json) : Option InvocationModel := do
  let [targetType, name, returnType, params, line] ←
    fields? false ["targetType", "name", "returnType", "params", "line"] json | none
  pure { targetType := ← required? text? targetType
         signature :=
           { name := ← required? text? name
             returnType := ← required? text? returnType
             params := ← texts? params }
         line := ← line? line }

def SiteModel.ofJson? (json : Json) : Option SiteModel := do
  let [type, line] ← fields? false ["type", "line"] json | none
  pure { type := ← required? text? type
         line := ← line? line }

def FieldAccessModel.ofJson? (json : Json) : Option FieldAccessModel := do
  let [name, type, kind, line] ← fields? false ["name", "type", "kind", "line"] json | none
  pure { name := ← required? text? name
         type := ← optional? text? type
         kind := ← required? (accessKind? (· matches .null)) kind
         line := ← line? line }

def MethodRefModel.ofJson? (json : Json) : Option MethodRefModel := do
  let [targetType, name, line] ← fields? false ["targetType", "name", "line"] json | none
  pure { targetType := ← optional? text? targetType
         name := ← required? text? name
         line := ← line? line }

def LambdaModel.ofJson? (json : Json) : Option LambdaModel := do
  let [implementation, line] ← fields? false ["implementation", "line"] json | none
  pure { implementation := ← required? text? implementation
         line := ← line? line }

def BodyModel.ofJson? (json : Json) : Option BodyModel := do
  let [invocations, allocations, fieldAccesses, methodRefs, casts, lambdas] ←
    fields? false
      ["invocations", "allocations", "fieldAccesses", "methodRefs", "casts", "lambdas"] json | none
  pure { invocations := ← entries? InvocationModel.ofJson? invocations
         allocations := ← entries? SiteModel.ofJson? allocations
         fieldAccesses := ← entries? FieldAccessModel.ofJson? fieldAccesses
         methodRefs := ← entries? MethodRefModel.ofJson? methodRefs
         casts := ← entries? SiteModel.ofJson? casts
         lambdas := ← entries? LambdaModel.ofJson? lambdas }

def MethodModel.ofJson? (json : Json) : Option MethodModel := do
  let [name, returnType, params, modifiers, line, body] ←
    fields? false ["name", "returnType", "params", "modifiers", "line", "body"] json | none
  pure { signature :=
           { name := ← required? text? name
             returnType := ← required? text? returnType
             params := ← texts? params }
         modifiers := ← texts? modifiers
         line := ← line? line
         body := ← defaulted? {} BodyModel.ofJson? body }

def TypeModel.ofJson? (json : Json) : Option TypeModel := do
  let [id, line, modifiers, superTypes, annotations, referencedTypes, fields, methods] ←
    fields? false
      ["id", "line", "modifiers", "superTypes", "annotations", "referencedTypes", "fields",
       "methods"] json | none
  pure { id := ← required? text? id
         line := ← line? line
         modifiers := ← texts? modifiers
         superTypes := ← texts? superTypes
         annotations := ← texts? annotations
         referencedTypes := ← texts? referencedTypes
         fields := ← entries? FieldModel.ofJson? fields
         methods := ← entries? MethodModel.ofJson? methods }

def Model.ofJson? (json : Json) : Option Model := do
  let [types] ← fields? false ["types"] json | none
  pure { types := ← entries? TypeModel.ofJson? types }

end Decoding

/-! ### Loading -/

/-- Why a model was not loaded. -/
inductive LoadError where
  | unreadable (path : String)
  | malformed (path : String)
  | unknownModifier (path element modifier : String)
deriving DecidableEq, Repr, Inhabited

def LoadError.message : LoadError → String
  | .unreadable path => s!"cannot read IR model {path}"
  | .malformed path => s!"malformed IR model {path}"
  | .unknownModifier path element modifier =>
      s!"unknown modifier '{modifier}' on {element} in {path}"

/-- The flags of an element's keywords. -/
def readModifiers (path element : String) (keywords : List String) : Except LoadError Modifiers :=
  keywords.mapM fun keyword =>
    match Modifier.ofKeyword? keyword with
    | some modifier => .ok modifier
    | none => .error (.unknownModifier path element keyword)

namespace Builder

/-- Add the fields of a type. -/
def addFieldModels (path : String) (owner : Handle .type) (builder : Builder)
    (fields : List FieldModel) : Except LoadError Builder :=
  fields.foldlM (fun builder field => do
    let modifiers ← readModifiers path field.name field.modifiers
    pure (builder.addField owner field.name field.type modifiers).1) builder

/-- Bodies that wait until every type of a model is declared. -/
abbrev PendingBodies := List (Handle .method × BodyModel)

/-- Add the methods of a type, without the content of their bodies. -/
def addMethodModels (path : String) (owner : Handle .type) :
    Builder → List MethodModel → Except LoadError (Builder × PendingBodies)
  | builder, [] => pure (builder, [])
  | builder, method :: rest => do
      let modifiers ← readModifiers path method.signature.name method.modifiers
      let (builder, added) := builder.addMethod owner method.signature modifiers
      let (builder, pending) ←
        addMethodModels path owner (builder.setMethodLine added method.line) rest
      pure (builder, (added, method.body) :: pending)

/-- Add a type with its members. -/
def addTypeModel (path : String) (builder : Builder) (type : TypeModel) :
    Except LoadError (Builder × PendingBodies) := do
  let (builder, owner) := builder.addType type.id
  let modifiers ← readModifiers path type.id type.modifiers
  let builder := (builder.setTypeLine owner type.line).setTypeModifiers owner modifiers
  let builder := type.superTypes.foldl (fun builder name => builder.addSuperType owner name) builder
  let builder :=
    type.annotations.foldl (fun builder name => builder.addAnnotation owner name) builder
  let builder :=
    type.referencedTypes.foldl (fun builder name => builder.addReferencedType owner name) builder
  let builder ← builder.addFieldModels path owner type.fields
  builder.addMethodModels path owner type.methods

/-- Declare types in order. -/
def addTypeModels (path : String) :
    Builder → List TypeModel → Except LoadError (Builder × PendingBodies)
  | builder, [] => pure (builder, [])
  | builder, type :: rest => do
      let (builder, pending) ← builder.addTypeModel path type
      let (builder, later) ← addTypeModels path builder rest
      pure (builder, pending ++ later)

/-- Add the elements of a body. -/
def addBody (builder : Builder) (pending : Handle .method × BodyModel) : Builder :=
  let (method, body) := pending
  let builder := body.invocations.foldl (fun builder call =>
    (builder.addInvocation method call.targetType call.signature call.line).1) builder
  let builder := body.allocations.foldl (fun builder site =>
    (builder.addAllocation method site.type site.line).1) builder
  let builder := body.fieldAccesses.foldl (fun builder access =>
    (builder.addFieldAccess method access.name access.type access.kind access.line).1) builder
  let builder := body.methodRefs.foldl (fun builder methodRef =>
    (builder.addMethodRef method methodRef.targetType methodRef.name methodRef.line).1) builder
  let builder := body.casts.foldl (fun builder site =>
    (builder.addCast method site.type site.line).1) builder
  body.lambdas.foldl (fun builder lambda =>
    (builder.addLambda method lambda.implementation lambda.line).1) builder

/-- Add the elements of a model: every declaration before any body, so that the order of the types
does not matter to what bodies refer to. -/
def addModel (path : String) (builder : Builder) (model : Model) : Except LoadError Builder := do
  let (builder, pending) ← builder.addTypeModels path model.types
  pure (pending.foldl addBody builder)

/-- Add the model that a document describes. -/
def addDocument (path : String) (builder : Builder) (document : Option Json) :
    Except LoadError Builder :=
  match document.bind Model.ofJson? with
  | some model => builder.addModel path model
  | none => .error (.malformed path)

/-- Add the model that a text describes. -/
def addText (path text : String) (builder : Builder) : Except LoadError Builder :=
  builder.addDocument path (Json.parse? text)

end Builder

end Correlate.Compiled
