/-
Module: Correlate.Proofs.Source.Outline
Purpose: What a file has to be like to show a document, however it was made.
Main exports: File.scopedVariable?, Part.entry?, File.BodyShown, Outline, TypeNode.outlines,
  File.MethodShown, File.TypeShown, TypeNode.preorder, File.Shows
-/
import Mathlib.Data.List.Forall2
import Correlate.Proofs.Source.WellFormed
import Correlate.Source.Document

namespace Correlate.Source

/-!
A document is a tree of types with bodies, which are trees themselves.  A file shows it if its types
are those of the tree in preorder, if each of them has the members of its node in order, and if every
method and lambda has, kind by kind, the elements of its body in order.  Names of variables denote what
is declared before they are used.
-/

/-! ### Variables in scope -/

/-- A method with the number of its local variables that are declared so far. -/
structure Frame where
  method : Handle .method
  declared : Nat

namespace File

/-- The variable of a name that a method has declared so far: its receiver for `this`, else the
latest local variable, else the first parameter. -/
def declaredVariable? (file : File) (name : String) (frame : Frame) : Option (Handle .variable) :=
  let record := file.methodAt frame.method
  if name = "this" then record.receiver
  else ((record.locals.take frame.declared).reverse ++ record.params).find? fun held =>
    (file.variableAt held).name = name

/-- The variable that a name denotes: that of the innermost method which has declared one. -/
def scopedVariable? (file : File) (scope : List Frame) (name : String) :
    Option (Handle .variable) :=
  scope.findSome? (file.declaredVariable? name)

/-- What a variable of a method is called for all files. -/
def symbolOf (file : File) (method : Handle .method) (name : String) : String :=
  s!"{file.qualifiedName method}/{name}"

end File

/-! ### Bodies -/

namespace BodyElement

/-- The element declares a local variable. -/
def isLocal : BodyElement → Bool
  | .localVariable _ _ _ => true
  | _ => false

/-- The elements of a body, each with the number of local variables declared before it. -/
def numbered (declared : Nat) : List BodyElement → List (Nat × BodyElement)
  | [] => []
  | element :: rest =>
      (declared, element) :: numbered (if element.isLocal then declared + 1 else declared) rest

end BodyElement

/-- A lambda of a body, with the number of local variables declared before it. -/
structure LambdaNode where
  declared : Nat
  params : List ParamNode
  body : List BodyElement
  position : Option Position

/-- The lambda that an element is. -/
def LambdaNode.of? : Nat × BodyElement → Option LambdaNode
  | (declared, .lambda params body position) => some { declared, params, body, position }
  | _ => none

namespace Part

/-- The part belongs to the body of a method. -/
def inBody : Part → Bool
  | .receiver => false
  | .parameter => false
  | _ => true

/-- What an element of the body of a method comes to in a part.  The methods around are given as
frames. -/
def entry? (file : File) (around : List Frame) (method : Handle .method) :
    (part : Part) → Nat × BodyElement → Option part.Entry
  | .localVariable, (_, .localVariable name type position) =>
      some { position, method, name, type, kind := .localVariable, symbol := file.symbolOf method name }
  | .invocation, (declared, .call name args base assignTo position) =>
      some
        { position, authoritative := true, method, name, arity := args
          base := base.bind (file.scopedVariable? (⟨method, declared⟩ :: around))
          target := assignTo.bind (file.scopedVariable? (⟨method, declared⟩ :: around)) }
  | .allocation, (declared, .new type dims assignTo position) =>
      some
        { position, authoritative := true, method, type, dimensions := dims
          target := assignTo.bind (file.scopedVariable? (⟨method, declared⟩ :: around)) }
  | .fieldAccess, (_, .field name access position) =>
      some { position, method, name, kind := access, outerThis := none }
  | .fieldAccess, (_, .outerThis qualifier position) =>
      some { position, method, name := "this", kind := .read, outerThis := some qualifier }
  | .cast, (_, .cast type position) => some { position, method, type }
  | .methodRef, (_, .methodRef name targetType position) =>
      some { position, method, name, targetType }
  | .stringConstant, (_, .string value position) => some { position, method, value }
  | _, _ => none

/-- What a method lists of a part. -/
def entries (file : File) (method : Handle .method) (part : Part) : List (Option part.Entry) :=
  (part.list (file.methodAt method)).map fun i => (part.table file)[i]?

end Part

namespace File

/-- The parameters of a method are these, in order. -/
def ParamsShown (file : File) (method : Handle .method) (params : List ParamNode) : Prop :=
  Part.parameter.entries file method = params.mapIdx fun n { name, type, position } =>
    some ({ position, method, name, type, kind := .parameter n
            symbol := file.symbolOf method name } : Variable)

/-- A method directly inside another one is this lambda. -/
structure LambdaShown (file : File) (outer lambda : Handle .method) (node : LambdaNode) : Prop where
  kind : (file.methodAt lambda).kind = .lambda
  parent : (file.methodAt lambda).parent = some outer
  declaring : (file.methodAt lambda).declaring = (file.methodAt outer).declaring
  isStatic : (file.methodAt lambda).isStatic = true
  position : (file.methodAt lambda).position = node.position
  params : file.ParamsShown lambda node.params

/-- A method has exactly the elements of a body, kind by kind in order, and its lambdas have those of
theirs. -/
inductive BodyShown (file : File) : List Frame → Handle .method → List BodyElement → Prop where
  | shown {around : List Frame} {method : Handle .method} {body : List BodyElement}
      (elements : ∀ part : Part, part.inBody = true → part.entries file method =
        ((BodyElement.numbered 0 body).filterMap (part.entry? file around method)).map some)
      (lambdas_length : (file.methodAt method).lambdas.length =
        ((BodyElement.numbered 0 body).filterMap LambdaNode.of?).length)
      (lambdas : ∀ (n : Nat) lambda node, (file.methodAt method).lambdas[n]? = some lambda →
        ((BodyElement.numbered 0 body).filterMap LambdaNode.of?)[n]? = some node →
        file.LambdaShown method lambda node)
      (bodies : ∀ (n : Nat) lambda node, (file.methodAt method).lambdas[n]? = some lambda →
        ((BodyElement.numbered 0 body).filterMap LambdaNode.of?)[n]? = some node →
        BodyShown file (⟨method, node.declared⟩ :: around) lambda node.body) :
      BodyShown file around method body

end File

/-! ### Members -/

/-- What a document says of a method of a type. -/
structure Outline where
  kind : MethodKind
  name : String
  returnType : Option String := none
  isStatic : Bool := false
  implicit : Bool := false
  position : Option Position
  params : List ParamNode := []
  body : List BodyElement

namespace TypeNode

/-- The class initializer of a type at a position: its body is that of all static initializers, one
after the other, and it stands where the first of them does. -/
def classInitializer (position : Option Position) (initializers : List InitializerNode) : Outline :=
  let statics := initializers.filter (·.isStatic)
  { kind := .classInitializer, name := ReservedName.classInitializer, isStatic := true
    implicit := statics.isEmpty
    position := (statics.head?.bind (·.position)) <|> position
    body := statics.flatMap (·.body) }

/-- An instance initializer. -/
def instanceInitializer (node : InitializerNode) : Outline :=
  { kind := .instanceInitializer, name := ReservedName.instanceInitializer
    position := node.position, body := node.body }

/-- A method or constructor. -/
def method (node : MethodNode) : Outline :=
  if node.isConstructor then
    { kind := .regular, name := ReservedName.constructor, position := node.position
      params := node.params, body := node.body }
  else
    { kind := .regular, name := node.name, returnType := node.returnType, isStatic := node.isStatic
      position := node.position, params := node.params, body := node.body }

/-- The methods of a type in order: its class initializer, its instance initializers, then its
methods and constructors. -/
def outlines (node : TypeNode) : List Outline :=
  classInitializer node.position node.initializers ::
    ((node.initializers.filter (!·.isStatic)).map instanceInitializer ++ node.methods.map method)

end TypeNode

namespace File

/-- A method of a type is as a document says. -/
structure MethodShown (file : File) (type : Handle .type) (method : Handle .method)
    (outline : Outline) : Prop where
  kind : (file.methodAt method).kind = outline.kind
  declaring : (file.methodAt method).declaring = type
  parent : (file.methodAt method).parent = none
  name : (file.methodAt method).name = outline.name
  returnType : (file.methodAt method).returnType = outline.returnType
  isStatic : (file.methodAt method).isStatic = outline.isStatic
  implicit : (file.methodAt method).implicit = outline.implicit
  position : (file.methodAt method).position = outline.position
  params : file.ParamsShown method outline.params
  body : file.BodyShown [] method outline.body

/-- A type is as a document says: it has exactly the members of a node, in order. -/
structure TypeShown (file : File) (type : Handle .type) (parent : Option (Handle .type))
    (node : TypeNode) : Prop where
  parent : (file.typeAt type).parent = parent
  position : (file.typeAt type).position = node.position
  anonymous : (file.typeAt type).anonymous = node.name.isNone
  name : ∀ name, node.name = some name → (file.typeAt type).name = name
  fields : ((file.typeAt type).fields.map fun field => file.fields[field.index]?) =
    node.fields.map fun field => some
      { position := field.position, authoritative := true, declaring := type, name := field.name
        type := field.type }
  methods : List.Forall₂ (file.MethodShown type) (file.typeAt type).methods node.outlines
  typeUsages : ((file.typeAt type).typeUsages.map fun usage => file.typeUsages[usage.index]?) =
    node.typeUses.map fun usage => some
      { position := usage.position, declaring := type, name := usage.name }

end File

/-! ### Documents -/

namespace TypeNode

mutual

/-- A type and the types nested in it in preorder, each with the place of the type around it.  The
type itself is at place `i`. -/
def preorder (parent : Option Nat) (i : Nat) : TypeNode → List (Option Nat × TypeNode)
  | { name, position, fields, methods, initializers, types, typeUses } =>
      (parent, { name, position, fields, methods, initializers, types, typeUses }) ::
        preorderAll (some i) (i + 1) types

/-- Types and the types nested in them in preorder, from place `i` on. -/
def preorderAll (parent : Option Nat) (i : Nat) : List TypeNode → List (Option Nat × TypeNode)
  | [] => []
  | node :: rest =>
      preorder parent i node ++ preorderAll parent (i + (preorder parent i node).length) rest

end

end TypeNode

/-- A file at a path shows a document: its types are those of the document in preorder. -/
structure File.Shows (file : File) (path : String) (document : Document) : Prop where
  path : file.path = path
  package : file.package = document.package
  imports : file.imports = document.imports.map fun node =>
    Import.parse node.name node.isStatic node.position
  types_size : file.types.size = (TypeNode.preorderAll none 0 document.types).length
  types : ∀ (i : Nat) parent node,
    (TypeNode.preorderAll none 0 document.types)[i]? = some (parent, node) →
    file.TypeShown ⟨i⟩ (parent.map Handle.mk) node

end Correlate.Source
