/-
Module: Correlate.Compiled.Element
Purpose: The elements of compiled code and the handles that name them.
Main exports: Kind, Handle, Ref, Signature, TypeDecl, Field, Method, Invocation, Allocation,
  FieldAccess, MethodRef, Cast, Lambda, Variable
-/
import Correlate.Compiled.Modifier
import Correlate.ElementKind
import Correlate.ReservedName

namespace Correlate.Compiled

/-- The kinds of compiled elements. -/
inductive Kind where
  | type
  | field
  | method
  | invocation
  | allocation
  | fieldAccess
  | methodRef
  | cast
  | lambda
  | variable
deriving DecidableEq, Repr, Inhabited

/-- The kind of program element that a compiled element is. -/
def Kind.element : Kind → ElementKind
  | .type => .type
  | .field => .field
  | .method => .method
  | .invocation => .invocation
  | .allocation => .allocation
  | .fieldAccess => .fieldAccess
  | .methodRef => .methodRef
  | .cast => .cast
  | .lambda => .lambda
  | .variable => .variable

/-- The kinds of compiled elements in listing order. -/
def Kind.all : List Kind :=
  [.type, .field, .method, .invocation, .allocation, .fieldAccess, .methodRef, .cast, .lambda,
   .variable]

/-- The compiled kind of a kind of program element.  Strings and type usages are not compiled to
elements. -/
def Kind.ofElement? (kind : ElementKind) : Option Kind :=
  Kind.all.find? (·.element = kind)

/-- The place of an element among those of its kind. -/
structure Handle (kind : Kind) where
  index : Nat
deriving DecidableEq, Repr, Inhabited

/-- A handle together with its kind: the name of any compiled element. -/
structure Ref where
  kind : Kind
  index : Nat
deriving DecidableEq, Repr, Inhabited

namespace Ref

/-- One number for each element. -/
def code (element : Ref) : Nat :=
  element.index * 12 + element.kind.element.index

theorem code_inj {one other : Ref} : one.code = other.code ↔ one = other := by
  refine ⟨fun same => ?_, congrArg _⟩
  obtain ⟨kind, index⟩ := one
  obtain ⟨kind', index'⟩ := other
  have small (k : Kind) : k.element.index < 12 := by cases k <;> decide
  have first := small kind
  have second := small kind'
  simp only [code] at same
  have indices : index = index' := by omega
  have kinds : kind.element.index = kind'.element.index := by omega
  have : kind = kind' := by cases kind <;> cases kind' <;> first | rfl | exact absurd kinds (by decide)
  simp [indices, this]

instance : Ord Ref := ⟨fun one other => compare one.code other.code⟩

theorem compare_def (one other : Ref) : compare one other = compare one.code other.code := rfl

instance : Std.TransOrd Ref where
  eq_swap {one other} := by
    rw [compare_def, compare_def]
    exact Std.OrientedCmp.eq_swap
  isLE_trans {one other third} := by
    rw [compare_def, compare_def, compare_def]
    exact Std.TransCmp.isLE_trans

instance : Std.LawfulEqOrd Ref where
  eq_of_compare {one other} same := by
    rw [compare_def] at same
    exact code_inj.1 (Std.LawfulEqCmp.eq_of_compare same)

end Ref

/-- The name of the element of a handle. -/
def Handle.ref {kind : Kind} (handle : Handle kind) : Ref :=
  ⟨kind, handle.index⟩

instance {kind : Kind} : CoeOut (Handle kind) Ref := ⟨Handle.ref⟩

/-- What tells the methods of one type apart: name, return type and parameter types. -/
structure Signature where
  name : String
  returnType : String
  params : List String
deriving DecidableEq, Repr, Inhabited

namespace Signature

/-- The number of parameters. -/
def arity (signature : Signature) : Nat :=
  signature.params.length

/-- The id of the method of a type that has this signature. -/
def idIn (owner : String) (signature : Signature) : String :=
  let params := ",".intercalate signature.params
  s!"<{owner}: {signature.returnType} {signature.name}({params})>"

end Signature

/-- A class or interface, with its binary name as id. -/
structure TypeDecl where
  id : String
  line : Option Nat := none
  modifiers : Modifiers := []
  /-- The superclass, then the interfaces. -/
  superTypes : List String := []
  annotations : List String := []
  /-- The types named anywhere in the compiled type. -/
  referencedTypes : List String := []
  /-- The types whose instances are captured in fields. -/
  outerTypes : List String := []
  fields : List (Handle .field) := []
  methods : List (Handle .method) := []
deriving DecidableEq, Repr, Inhabited

/-- A field of a type. -/
structure Field where
  id : String
  name : String
  type : String
  declaring : Handle .type
  modifiers : Modifiers
deriving DecidableEq, Repr, Inhabited

/-- The id of a field. -/
def fieldId (owner type name : String) : String :=
  s!"<{owner}: {type} {name}>"

/-- A method of a type, with the elements of its body kind by kind in order of appearance. -/
structure Method where
  id : String
  declaring : Handle .type
  signature : Signature
  modifiers : Modifiers
  line : Option Nat := none
  /-- Static methods have none. -/
  receiver : Option (Handle .variable)
  params : List (Handle .variable)
  invocations : List (Handle .invocation) := []
  allocations : List (Handle .allocation) := []
  fieldAccesses : List (Handle .fieldAccess) := []
  methodRefs : List (Handle .methodRef) := []
  casts : List (Handle .cast) := []
  lambdas : List (Handle .lambda) := []
deriving DecidableEq, Repr, Inhabited

/-- The name of a method. -/
def Method.name (method : Method) : String :=
  method.signature.name

/-- The number of parameters of a method, captured values included. -/
def Method.arity (method : Method) : Nat :=
  method.signature.arity

/-- A call. -/
structure Invocation where
  id : String
  method : Handle .method
  /-- The declared type of the called method. -/
  targetType : String
  signature : Signature
  line : Option Nat
deriving DecidableEq, Repr, Inhabited

/-- The name of a method together with its type. -/
def namingId (type name : String) : String :=
  s!"{type}.{name}"

/-- The name of the called method. -/
def Invocation.name (call : Invocation) : String :=
  call.signature.name

/-- The number of values that a call passes. -/
def Invocation.arity (call : Invocation) : Nat :=
  call.signature.arity

/-- The name of the called method together with its type. -/
def Invocation.namingId (call : Invocation) : String :=
  Compiled.namingId call.targetType call.name

/-- The creation of an object or array. -/
structure Allocation where
  id : String
  method : Handle .method
  type : String
  line : Option Nat
deriving DecidableEq, Repr, Inhabited

/-- A read or write of a field. -/
structure FieldAccess where
  id : String
  method : Handle .method
  name : String
  type : Option String
  kind : AccessKind
  line : Option Nat
deriving DecidableEq, Repr, Inhabited

/-- A reference to a method. -/
structure MethodRef where
  id : String
  method : Handle .method
  targetType : Option String
  name : String
  line : Option Nat
deriving DecidableEq, Repr, Inhabited

/-- A cast. -/
structure Cast where
  id : String
  method : Handle .method
  type : String
  line : Option Nat
deriving DecidableEq, Repr, Inhabited

/-- The place where a lambda is created. -/
structure Lambda where
  id : String
  method : Handle .method
  /-- The id of the method that holds the body. -/
  implementationId : String
  /-- That method, if it exists. -/
  implementation : Option (Handle .method) := none
  line : Option Nat
deriving DecidableEq, Repr, Inhabited

/-- A receiver or parameter. -/
structure Variable where
  id : String
  method : Handle .method
  slot : MethodSlot
deriving DecidableEq, Repr, Inhabited

end Correlate.Compiled
