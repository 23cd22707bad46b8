/-
Module: Correlate.Source.Lowering
Purpose: From the description of a source file to its elements.
Main exports: File.ofDocument, ReadError
-/
import Correlate.Source.Assembly
import Correlate.Source.Document
import Correlate.Json.Reader

namespace Correlate.Source

/-- Why a source file was not read. -/
inductive ReadError where
  | unreadable (path : String)
  | malformed (path : String)
  /-- A type outside all others has no name. -/
  | unnamedType (path : String)
  /-- A chain of lambdas is longer than the limit. -/
  | deepLambda (path : String)
  /-- No front end reads files of this name. -/
  | unsupported (path : String)
deriving DecidableEq, Repr, Inhabited

def ReadError.message : ReadError → String
  | .unreadable path => s!"cannot read {path}"
  | .malformed path => s!"{path}: malformed document"
  | .unnamedType path => s!"{path}: top-level type without a name"
  | .deepLambda path => s!"{path}: lambdas nested deeper than {maxLambdaNesting}"
  | .unsupported path => s!"no source front end accepts {path}"

namespace File

/-- Add the parameters of a method. -/
def lowerParams (method : Handle .method) (params : List ParamNode) (file : File) : File :=
  params.foldl (fun file param =>
    (file.addParam method param.name param.type param.position).1) file

/-- The variable that an optional name denotes. -/
def variableNamed? (file : File) (method : Handle .method) (name : Option String) :
    Option (Handle .variable) :=
  name.bind (file.findVariable? method)

mutual

/-- Add an element of a body.  The budget bounds the nesting of lambdas below the element. -/
def lowerElement (budget : Nat) (method : Handle .method) (file : File) :
    BodyElement → Except ReadError File
  | .call name args base assignTo position =>
      pure (file.addInvocation method name args position (file.variableNamed? method base)
        (file.variableNamed? method assignTo)).1
  | .new type dims assignTo position =>
      pure (file.addAllocation method type dims position (file.variableNamed? method assignTo)).1
  | .field name access position => pure (file.addFieldAccess method name access position).1
  | .outerThis qualifier position => pure (file.addOuterThisAccess method qualifier position).1
  | .cast type position => pure (file.addCast method type position).1
  | .methodRef name targetType position =>
      pure (file.addMethodRef method name targetType position).1
  | .lambda params body position =>
      let (file, lambda) := file.addLambda method position
      let file := file.lowerParams lambda params
      match budget with
      | 0 => throw (.deepLambda file.path)
      | budget + 1 => lowerBody budget lambda file body
  | .string value position => pure (file.addStringConstant method value position).1
  | .localVariable name type position => pure (file.addLocal method name type position).1

/-- Add the elements of a body in order. -/
def lowerBody (budget : Nat) (method : Handle .method) (file : File) :
    List BodyElement → Except ReadError File
  | [] => pure file
  | element :: rest => do
      let file ← lowerElement budget method file element
      lowerBody budget method file rest

end

/-- Add an initializer of a type. -/
def lowerInitializer (type : Handle .type) (file : File) (node : InitializerNode) :
    Except ReadError File :=
  let (file, method) :=
    if node.isStatic then file.declareStaticInitializer type node.position
    else file.addInstanceInitializer type node.position
  file.lowerBody maxLambdaNesting method node.body

/-- Add a method or constructor of a type. -/
def lowerMethod (type : Handle .type) (file : File) (node : MethodNode) : Except ReadError File :=
  let (file, method) :=
    if node.isConstructor then file.addConstructor type node.position
    else file.addMethod type node.name node.returnType node.isStatic node.position
  (file.lowerParams method node.params).lowerBody maxLambdaNesting method node.body

/-- Add a type without its members. -/
def lowerHead (parent : Option (Handle .type)) (name : Option String)
    (position : Option Position) (file : File) : Except ReadError (File × Handle .type) :=
  match name, parent with
  | some name, _ => pure (file.addType name parent position)
  | none, some outer => pure (file.addAnonymousType outer position)
  | none, none => throw (.unnamedType file.path)

mutual

/-- Add a type: its fields, its initializers, its methods, the names it uses, then the types nested
in it. -/
def lowerType (parent : Option (Handle .type)) (file : File) : TypeNode → Except ReadError File
  | { name, position, fields, methods, initializers, types, typeUses } => do
      let (file, type) ← file.lowerHead parent name position
      let file := fields.foldl (fun file field =>
        (file.addField type field.name field.type field.position).1) file
      let file ← initializers.foldlM (lowerInitializer type) file
      let file ← methods.foldlM (lowerMethod type) file
      let file := typeUses.foldl (fun file usage =>
        (file.addTypeUsage type usage.name usage.position).1) file
      lowerTypes (some type) file types

/-- Add types in order. -/
def lowerTypes (parent : Option (Handle .type)) (file : File) :
    List TypeNode → Except ReadError File
  | [] => pure file
  | type :: rest => do
      let file ← lowerType parent file type
      lowerTypes parent file rest

end

/-- The file that a document describes. -/
def ofDocument (path : String) (document : Document) : Except ReadError File :=
  let imports := document.imports.map fun node =>
    Import.parse node.name node.isStatic node.position
  lowerTypes none { path, package := document.package, imports } document.types

/-- The file that a document describes, if it is one. -/
def ofJson (path : String) (document : Option Json) : Except ReadError File :=
  match document.bind Document.ofJson? with
  | some document => ofDocument path document
  | none => throw (.malformed path)

/-- The file that a text describes. -/
def ofText (path text : String) : Except ReadError File :=
  ofJson path (Json.parse? text)

end File

end Correlate.Source
