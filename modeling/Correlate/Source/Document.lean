/-
Module: Correlate.Source.Document
Purpose: Documents that describe a source file.
Main exports: Document, BodyElement, TypeNode, Document.ofJson?
-/
import Correlate.ElementKind
import Correlate.Json.Decode
import Correlate.Position

namespace Correlate.Source

/-!
A document lists the imports and the nested types of a file.  A body lists its elements in the order
in which they are visited, each tagged with its kind.  Members of unknown name are refused, except in
the elements of bodies, where they are skipped.
-/

structure ImportNode where
  name : String
  isStatic : Bool := false
  position : Option Position := none
deriving DecidableEq, Repr, Inhabited

structure FieldNode where
  name : String
  type : String
  position : Option Position := none
deriving DecidableEq, Repr, Inhabited

structure ParamNode where
  name : String
  type : Option String := none
  position : Option Position := none
deriving DecidableEq, Repr, Inhabited

structure TypeUseNode where
  name : String
  position : Option Position := none
deriving DecidableEq, Repr, Inhabited

/-- An element of a body. -/
inductive BodyElement where
  | call (name : String) (args : Nat) (base assignTo : Option String) (position : Option Position)
  | new (type : String) (dims : Nat) (assignTo : Option String) (position : Option Position)
  | field (name : String) (access : AccessKind) (position : Option Position)
  | outerThis (qualifier : String) (position : Option Position)
  | cast (type : String) (position : Option Position)
  | methodRef (name : String) (targetType : Option String) (position : Option Position)
  | lambda (params : List ParamNode) (body : List BodyElement) (position : Option Position)
  | string (value : String) (position : Option Position)
  | localVariable (name : String) (type : Option String) (position : Option Position)
deriving Repr, Inhabited

structure MethodNode where
  name : String
  isConstructor : Bool := false
  isStatic : Bool := false
  returnType : Option String := none
  params : List ParamNode := []
  position : Option Position := none
  body : List BodyElement := []
deriving Repr, Inhabited

structure InitializerNode where
  isStatic : Bool := false
  position : Option Position := none
  body : List BodyElement := []
deriving Repr, Inhabited

/-- A type with its members.  An anonymous type has no name. -/
structure TypeNode where
  name : Option String := none
  position : Option Position := none
  fields : List FieldNode := []
  methods : List MethodNode := []
  initializers : List InitializerNode := []
  types : List TypeNode := []
  typeUses : List TypeUseNode := []
deriving Repr, Inhabited

/-- A description of a source file. -/
structure Document where
  package : String := ""
  imports : List ImportNode := []
  types : List TypeNode := []
deriving Repr, Inhabited

/-! ### Reading -/

section Decoding

open Json

/-- A position: start line and column, end line and column. -/
def positionOfJson? (json : Json) : Option Position := do
  let [startLine, startColumn, endLine, endColumn] ← list? word32? json | none
  pure { startLine, startColumn, endLine, endColumn }

/-- A position that may be missing. -/
def position? : FieldValue → Option (Option Position) :=
  optional? positionOfJson?

/-- The entries of a list that may be missing. -/
def nodes? {α : Type} (decode : Json → Option α) : FieldValue → Option (List α) :=
  defaulted? [] (list? decode)

/-- A flag that may be missing. -/
def flag? : FieldValue → Option Bool :=
  defaulted? false bool?

/-- A text that may be missing or null. -/
def optionalText? : FieldValue → Option (Option String) :=
  optional? text?

def ImportNode.ofJson? (json : Json) : Option ImportNode := do
  let [name, isStatic, position] ← fields? true ["name", "static", "pos"] json | none
  pure { name := ← required? text? name
         isStatic := ← flag? isStatic
         position := ← position? position }

def FieldNode.ofJson? (json : Json) : Option FieldNode := do
  let [name, type, position] ← fields? true ["name", "type", "pos"] json | none
  pure { name := ← required? text? name
         type := ← required? text? type
         position := ← position? position }

def ParamNode.ofJson? (json : Json) : Option ParamNode := do
  let [name, type, position] ← fields? true ["name", "type", "pos"] json | none
  pure { name := ← required? text? name
         type := ← optionalText? type
         position := ← position? position }

def TypeUseNode.ofJson? (json : Json) : Option TypeUseNode := do
  let [name, position] ← fields? true ["name", "pos"] json | none
  pure { name := ← required? text? name
         position := ← position? position }

/-- The kinds of body elements in the order of their numbers. -/
def bodyKinds : List String :=
  ["call", "new", "field", "outerThis", "cast", "methodRef", "lambda", "string", "local"]

/-- The kind of a body element.  In the body of a lambda the number of a kind may stand for it. -/
def bodyKind? (inLambda : Bool) : Json → Option String
  | .string kind => kind
  | json => if inLambda then (word64? json).bind (bodyKinds[·]?) else none

/-- An access kind: its name, or an object with its name as the only key and nothing below it. -/
def access? : Json → Option AccessKind
  | .string content => content.bind AccessKind.ofText?
  | .object [(key, .null)] => key.bind AccessKind.ofText?
  | .object [(key, .object [])] => key.bind AccessKind.ofText?
  | _ => none

/-- An element of a body.  The fuel bounds how deep lambdas are nested. -/
def BodyElement.ofJson? (inLambda : Bool) : Nat → Json → Option BodyElement
  | 0, _ => none
  | fuel + 1, json => do
      let (tag, content) ← tagged? "kind" json
      match ← bodyKind? inLambda tag with
      | "call" =>
          let [name, args, base, assignTo, position] ←
            fields? false ["name", "args", "base", "assignTo", "pos"] content | none
          pure (.call (← required? text? name) (← required? word64? args) (← optionalText? base)
            (← optionalText? assignTo) (← position? position))
      | "new" =>
          let [type, dims, assignTo, position] ←
            fields? false ["type", "dims", "assignTo", "pos"] content | none
          pure (.new (← required? text? type) (← defaulted? 0 word32? dims)
            (← optionalText? assignTo) (← position? position))
      | "field" =>
          let [name, access, position] ← fields? false ["name", "access", "pos"] content | none
          pure (.field (← required? text? name) (← required? access? access)
            (← position? position))
      | "outerThis" =>
          let [qualifier, position] ← fields? false ["qualifier", "pos"] content | none
          pure (.outerThis (← required? text? qualifier) (← position? position))
      | "cast" =>
          let [type, position] ← fields? false ["type", "pos"] content | none
          pure (.cast (← required? text? type) (← position? position))
      | "methodRef" =>
          let [name, targetType, position] ←
            fields? false ["name", "targetType", "pos"] content | none
          pure (.methodRef (← required? text? name) (← optionalText? targetType)
            (← position? position))
      | "lambda" =>
          let [params, body, position] ← fields? false ["params", "body", "pos"] content | none
          pure (.lambda (← nodes? ParamNode.ofJson? params)
            (← nodes? (BodyElement.ofJson? true fuel) body) (← position? position))
      | "string" =>
          let [value, position] ← fields? false ["value", "pos"] content | none
          pure (.string (← required? text? value) (← position? position))
      | "local" =>
          let [name, type, position] ← fields? false ["name", "type", "pos"] content | none
          pure (.localVariable (← required? text? name) (← optionalText? type)
            (← position? position))
      | _ => none

/-- The elements of a body that may be missing. -/
def body? (fuel : Nat) : FieldValue → Option (List BodyElement) :=
  nodes? (BodyElement.ofJson? false fuel)

def MethodNode.ofJson? (fuel : Nat) (json : Json) : Option MethodNode := do
  let [name, isConstructor, isStatic, returnType, params, position, body] ←
    fields? true ["name", "constructor", "static", "returnType", "params", "pos", "body"] json
    | none
  pure { name := ← required? text? name
         isConstructor := ← flag? isConstructor
         isStatic := ← flag? isStatic
         returnType := ← optionalText? returnType
         params := ← nodes? ParamNode.ofJson? params
         position := ← position? position
         body := ← body? fuel body }

def InitializerNode.ofJson? (fuel : Nat) (json : Json) : Option InitializerNode := do
  let [isStatic, position, body] ← fields? true ["static", "pos", "body"] json | none
  pure { isStatic := ← flag? isStatic
         position := ← position? position
         body := ← body? fuel body }

/-- A type.  The fuel bounds how deep types and lambdas are nested. -/
def TypeNode.ofJson? : Nat → Json → Option TypeNode
  | 0, _ => none
  | fuel + 1, json => do
      let [name, position, fields, methods, initializers, types, typeUses] ←
        fields? true
          ["name", "pos", "fields", "methods", "initializers", "types", "typeUses"] json | none
      pure { name := ← optionalText? name
             position := ← position? position
             fields := ← nodes? FieldNode.ofJson? fields
             methods := ← nodes? (MethodNode.ofJson? fuel) methods
             initializers := ← nodes? (InitializerNode.ofJson? fuel) initializers
             types := ← nodes? (TypeNode.ofJson? fuel) types
             typeUses := ← nodes? TypeUseNode.ofJson? typeUses }

/-- A document.  The nesting of the value bounds the nesting of types and lambdas. -/
def Document.ofJson? (json : Json) : Option Document := do
  if !json.isSound then none
  let [package, imports, types] ← fields? true ["package", "imports", "types"] json | none
  pure { package := ← defaulted? "" text? package
         imports := ← nodes? ImportNode.ofJson? imports
         types := ← nodes? (TypeNode.ofJson? nestingLimit) types }

end Decoding

end Correlate.Source
