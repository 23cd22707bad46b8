/-
Module: Correlate.Source.File
Purpose: The elements of one source file and their links to compiled elements.
Main exports: Link, File, File.elements, File.position?, File.isAuthoritative, File.link?,
  File.setLink?, File.findVariable?, File.enclosingTypes, File.label
-/
import Std.Data.TreeMap
import Correlate.Compiled.Element
import Correlate.Source.Element
import Correlate.Source.Import

namespace Correlate.Source

/-- The compiled element a source element was matched to, and its id. -/
structure Link where
  compiled : Compiled.Ref
  id : String
deriving DecidableEq, Repr, Inhabited

/-- All elements of a file, kind by kind in document order. -/
structure File where
  path : String
  package : String
  imports : List Import := []
  types : Array TypeDecl := #[]
  fields : Array Field := #[]
  methods : Array Method := #[]
  invocations : Array Invocation := #[]
  allocations : Array Allocation := #[]
  fieldAccesses : Array FieldAccess := #[]
  casts : Array Cast := #[]
  methodRefs : Array MethodRef := #[]
  vars : Array Variable := #[]
  stringConstants : Array StringConstant := #[]
  typeUsages : Array TypeUsage := #[]
  lambdaCount : Nat := 0
  links : Std.TreeMap Ref Link := {}

namespace File

instance : Inhabited File := ⟨{ path := "", package := "" }⟩

/-! A handle that names nothing stands for an element without name and content. -/

def typeAt (file : File) (handle : Handle .type) : TypeDecl :=
  file.types[handle.index]?.getD default

def fieldAt (file : File) (handle : Handle .field) : Field :=
  file.fields[handle.index]?.getD default

def methodAt (file : File) (handle : Handle .method) : Method :=
  file.methods[handle.index]?.getD default

def invocationAt (file : File) (handle : Handle .invocation) : Invocation :=
  file.invocations[handle.index]?.getD default

def allocationAt (file : File) (handle : Handle .allocation) : Allocation :=
  file.allocations[handle.index]?.getD default

def fieldAccessAt (file : File) (handle : Handle .fieldAccess) : FieldAccess :=
  file.fieldAccesses[handle.index]?.getD default

def castAt (file : File) (handle : Handle .cast) : Cast :=
  file.casts[handle.index]?.getD default

def methodRefAt (file : File) (handle : Handle .methodRef) : MethodRef :=
  file.methodRefs[handle.index]?.getD default

def variableAt (file : File) (handle : Handle .variable) : Variable :=
  file.vars[handle.index]?.getD default

def stringConstantAt (file : File) (handle : Handle .stringConstant) : StringConstant :=
  file.stringConstants[handle.index]?.getD default

def typeUsageAt (file : File) (handle : Handle .typeUsage) : TypeUsage :=
  file.typeUsages[handle.index]?.getD default

/-- The types of the file in document order. -/
def typeHandles (file : File) : List (Handle .type) :=
  (List.range file.types.size).map Handle.mk

/-- The methods of the file in document order, either the lambdas or all others. -/
def methodHandles (file : File) (lambdas : Bool) : List (Handle .method) :=
  ((List.range file.methods.size).map Handle.mk).filter fun method =>
    ((file.methodAt method).kind = .lambda) = lambdas

/-- The calls of the file in document order. -/
def invocationHandles (file : File) : List (Handle .invocation) :=
  (List.range file.invocations.size).map Handle.mk

/-- The allocations of the file in document order. -/
def allocationHandles (file : File) : List (Handle .allocation) :=
  (List.range file.allocations.size).map Handle.mk

/-- The number of elements of a kind. -/
def count (file : File) : Kind → Nat
  | .type => file.types.size
  | .field => file.fields.size
  | .method => file.methods.size
  | .invocation => file.invocations.size
  | .allocation => file.allocations.size
  | .fieldAccess => file.fieldAccesses.size
  | .methodRef => file.methodRefs.size
  | .cast => file.casts.size
  | .variable => file.vars.size
  | .stringConstant => file.stringConstants.size
  | .typeUsage => file.typeUsages.size

/-- The elements of a kind in document order. -/
def elements (file : File) : ElementKind → List Ref
  | .method => (file.methodHandles false).map Handle.ref
  | .lambda => (file.methodHandles true).map Handle.ref
  | kind =>
      let sourceKind := Kind.ofElement kind
      (List.range (file.count sourceKind)).map (Ref.mk sourceKind)

/-- The kind of program element that an element is; lambdas are told from other methods. -/
def elementKind (file : File) (element : Ref) : ElementKind :=
  match element with
  | ⟨.method, i⟩ => if (file.methodAt ⟨i⟩).kind = .lambda then .lambda else .method
  | ⟨kind, _⟩ => kind.element

/-- Where an element stands in the file. -/
def position? (file : File) (element : Ref) : Option Position :=
  match element with
  | ⟨.type, i⟩ => (file.typeAt ⟨i⟩).position
  | ⟨.field, i⟩ => (file.fieldAt ⟨i⟩).position
  | ⟨.method, i⟩ => (file.methodAt ⟨i⟩).position
  | ⟨.invocation, i⟩ => (file.invocationAt ⟨i⟩).position
  | ⟨.allocation, i⟩ => (file.allocationAt ⟨i⟩).position
  | ⟨.fieldAccess, i⟩ => (file.fieldAccessAt ⟨i⟩).position
  | ⟨.methodRef, i⟩ => (file.methodRefAt ⟨i⟩).position
  | ⟨.cast, i⟩ => (file.castAt ⟨i⟩).position
  | ⟨.variable, i⟩ => (file.variableAt ⟨i⟩).position
  | ⟨.stringConstant, i⟩ => (file.stringConstantAt ⟨i⟩).position
  | ⟨.typeUsage, i⟩ => (file.typeUsageAt ⟨i⟩).position

/-- The line an element starts on. -/
def startLine? (file : File) (element : Ref) : Option Nat :=
  (file.position? element).map Position.startLine

/-- The element is declared in the source and no stand-in for a compiled element. -/
def isAuthoritative (file : File) (element : Ref) : Bool :=
  match element with
  | ⟨.field, i⟩ => (file.fieldAt ⟨i⟩).authoritative
  | ⟨.invocation, i⟩ => (file.invocationAt ⟨i⟩).authoritative
  | ⟨.allocation, i⟩ => (file.allocationAt ⟨i⟩).authoritative
  | _ => true

/-- The link of an element. -/
def link? (file : File) (element : Ref) : Option Link :=
  file.links[element]?

/-- The element carries a link. -/
def isLinked (file : File) (element : Ref) : Bool :=
  (file.link? element).isSome

/-- Give an element a link.  An element that carries one keeps it. -/
def setLink? (element : Ref) (link : Link) (file : File) : Option File :=
  if file.isLinked element then none
  else some { file with links := file.links.insert element link }

/-- The compiled method a method is linked to. -/
def linkedMethod? (file : File) (method : Handle .method) : Option (Compiled.Handle .method) :=
  match file.link? method with
  | some ⟨⟨.method, i⟩, _⟩ => some ⟨i⟩
  | _ => none

/-- The name of a method together with its type. -/
def qualifiedName (file : File) (method : Handle .method) : String :=
  let record := file.methodAt method
  s!"{(file.typeAt record.declaring).binaryName}.{record.name}"

/-- The declared types of the parameters of a method. -/
def paramTypes (file : File) (method : Handle .method) : List (Option String) :=
  (file.methodAt method).params.map fun param => (file.variableAt param).type

/-- A method and the methods around it, innermost first, as far as `fuel` reaches. -/
def methodChain (file : File) : Nat → Handle .method → List (Handle .method)
  | 0, _ => []
  | fuel + 1, method =>
      method :: match (file.methodAt method).parent with
        | some parent => file.methodChain fuel parent
        | none => []

/-- A method and the methods around it, innermost first.  The method around a lambda is added before
the lambda, so a method has no more of them than its place in the file tells. -/
def enclosingMethods (file : File) (method : Handle .method) : List (Handle .method) :=
  file.methodChain (method.index + 1) method

/-- The variable of a name that one method declares: its receiver for `this`, else the latest local
variable, else the first parameter. -/
def ownVariable? (file : File) (name : String) (method : Handle .method) :
    Option (Handle .variable) :=
  let record := file.methodAt method
  if name = "this" then record.receiver
  else (record.locals.reverse ++ record.params).find? fun v => (file.variableAt v).name = name

/-- The variable that a name denotes in a method: that of the nearest method around which declares
one. -/
def findVariable? (file : File) (method : Handle .method) (name : String) :
    Option (Handle .variable) :=
  (file.enclosingMethods method).findSome? (file.ownVariable? name)

/-- The types around a type, innermost first, as far as `fuel` reaches. -/
def typeChain (file : File) : Nat → Handle .type → List (Handle .type)
  | 0, _ => []
  | fuel + 1, type =>
      match (file.typeAt type).parent with
      | some parent => parent :: file.typeChain fuel parent
      | none => []

/-- The types around a type, outermost first.  A type is added before the types it encloses. -/
def enclosingTypes (file : File) (type : Handle .type) : List (Handle .type) :=
  (file.typeChain type.index type).reverse

/-- A short text for an element. -/
def label (file : File) (element : Ref) : String :=
  match element with
  | ⟨.type, i⟩ => (file.typeAt ⟨i⟩).binaryName
  | ⟨.field, i⟩ => (file.fieldAt ⟨i⟩).name
  | ⟨.method, i⟩ => (file.methodAt ⟨i⟩).name
  | ⟨.invocation, i⟩ => (file.invocationAt ⟨i⟩).name
  | ⟨.allocation, i⟩ => s!"new {(file.allocationAt ⟨i⟩).type}"
  | ⟨.fieldAccess, i⟩ =>
      let access := file.fieldAccessAt ⟨i⟩
      match access.outerThis with
      | some qualifier => s!"{qualifier}.this"
      | none => access.name
  | ⟨.methodRef, i⟩ => s!"::{(file.methodRefAt ⟨i⟩).name}"
  | ⟨.cast, i⟩ => s!"({(file.castAt ⟨i⟩).type})"
  | ⟨.variable, i⟩ => (file.variableAt ⟨i⟩).name
  | ⟨.stringConstant, i⟩ => (file.stringConstantAt ⟨i⟩).value
  | ⟨.typeUsage, i⟩ => (file.typeUsageAt ⟨i⟩).name

end File

end Correlate.Source
