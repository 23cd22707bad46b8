/-
Module: Correlate.Source.Element
Purpose: The elements of source code and the handles that name them.
Main exports: Kind, Handle, Ref, TypeDecl, Field, MethodKind, Method, Invocation, Allocation,
  FieldAccess, Cast, MethodRef, VariableKind, Variable, StringConstant, TypeUsage
-/
import Correlate.ElementKind
import Correlate.Position
import Correlate.ReservedName

namespace Correlate.Source

/-- The kinds of source elements.  A lambda is a method. -/
inductive Kind where
  | type
  | field
  | method
  | invocation
  | allocation
  | fieldAccess
  | methodRef
  | cast
  | variable
  | stringConstant
  | typeUsage
deriving DecidableEq, Repr, Inhabited

/-- The kind of program element that a source element is, where lambdas count as methods. -/
def Kind.element : Kind → ElementKind
  | .type => .type
  | .field => .field
  | .method => .method
  | .invocation => .invocation
  | .allocation => .allocation
  | .fieldAccess => .fieldAccess
  | .methodRef => .methodRef
  | .cast => .cast
  | .variable => .variable
  | .stringConstant => .stringConstant
  | .typeUsage => .typeUsage

/-- The kind of source elements that a kind of program element belongs to. -/
def Kind.ofElement : ElementKind → Kind
  | .type => .type
  | .field => .field
  | .method => .method
  | .invocation => .invocation
  | .allocation => .allocation
  | .fieldAccess => .fieldAccess
  | .methodRef => .methodRef
  | .cast => .cast
  | .lambda => .method
  | .variable => .variable
  | .stringConstant => .stringConstant
  | .typeUsage => .typeUsage

/-- The place of an element among those of its kind. -/
structure Handle (kind : Kind) where
  index : Nat
deriving DecidableEq, Repr, Inhabited

/-- A handle together with its kind: the name of any element of a file. -/
structure Ref where
  kind : Kind
  index : Nat
deriving DecidableEq, Repr, Inhabited

namespace Ref

/-- One number for each element. -/
def code (element : Ref) : Nat :=
  element.index * 12 + element.kind.element.index

theorem code_inj {one other : Ref} : one.code = other.code ↔ one = other := by
  refine ⟨fun same => ?_, congrArg _⟩
  obtain ⟨kind, index⟩ := one
  obtain ⟨kind', index'⟩ := other
  have small (k : Kind) : k.element.index < 12 := by cases k <;> decide
  have first := small kind
  have second := small kind'
  simp only [code] at same
  have indices : index = index' := by omega
  have kinds : kind.element.index = kind'.element.index := by omega
  have : kind = kind' := by cases kind <;> cases kind' <;> first | rfl | exact absurd kinds (by decide)
  simp [indices, this]

instance : Ord Ref := ⟨fun one other => compare one.code other.code⟩

theorem compare_def (one other : Ref) : compare one other = compare one.code other.code := rfl

instance : Std.TransOrd Ref where
  eq_swap {one other} := by
    rw [compare_def, compare_def]
    exact Std.OrientedCmp.eq_swap
  isLE_trans {one other third} := by
    rw [compare_def, compare_def, compare_def]
    exact Std.TransCmp.isLE_trans

instance : Std.LawfulEqOrd Ref where
  eq_of_compare {one other} same := by
    rw [compare_def] at same
    exact code_inj.1 (Std.LawfulEqCmp.eq_of_compare same)

end Ref

/-- The name of the element of a handle. -/
def Handle.ref {kind : Kind} (handle : Handle kind) : Ref :=
  ⟨kind, handle.index⟩

instance {kind : Kind} : CoeOut (Handle kind) Ref := ⟨Handle.ref⟩

/-- A type declared in a file. -/
structure TypeDecl where
  position : Option Position
  /-- The name as written; the number of an anonymous type. -/
  name : String
  binaryName : String
  parent : Option (Handle .type)
  anonymous : Bool
  fields : List (Handle .field) := []
  /-- Declared methods and initializers.  Lambdas belong to the method around them. -/
  methods : List (Handle .method) := []
  /-- The method that collects the static initializers. -/
  classInitializer : Handle .method
  typeUsages : List (Handle .typeUsage) := []
  /-- How many anonymous types are declared directly in this one. -/
  anonymousCount : Nat := 0
deriving DecidableEq, Repr, Inhabited

/-- A field of a type.  One that is not authoritative stands for a compiled field that the source
does not declare. -/
structure Field where
  position : Option Position
  authoritative : Bool
  declaring : Handle .type
  name : String
  type : String
deriving DecidableEq, Repr, Inhabited

/-- What a method is. -/
inductive MethodKind where
  /-- A method or constructor. -/
  | regular
  | classInitializer
  | instanceInitializer
  | lambda
deriving DecidableEq, Repr, Inhabited

/-- The name of a method kind. -/
def MethodKind.text : MethodKind → String
  | .regular => "regular"
  | .classInitializer => "class-initializer"
  | .instanceInitializer => "instance-initializer"
  | .lambda => "lambda"

/-- A method, constructor, initializer or lambda, with the elements of its body kind by kind. -/
structure Method where
  position : Option Position
  kind : MethodKind
  declaring : Handle .type
  /-- The method around a lambda. -/
  parent : Option (Handle .method)
  name : String
  returnType : Option String
  isStatic : Bool
  /-- No declaration in the source stands for the method. -/
  implicit : Bool
  receiver : Option (Handle .variable) := none
  params : List (Handle .variable) := []
  locals : List (Handle .variable) := []
  invocations : List (Handle .invocation) := []
  allocations : List (Handle .allocation) := []
  fieldAccesses : List (Handle .fieldAccess) := []
  casts : List (Handle .cast) := []
  methodRefs : List (Handle .methodRef) := []
  lambdas : List (Handle .method) := []
  stringConstants : List (Handle .stringConstant) := []
deriving DecidableEq, Repr, Inhabited

/-- The number of declared parameters. -/
def Method.arity (method : Method) : Nat :=
  method.params.length

/-- A constructor is a regular method of the reserved name. -/
def Method.isConstructor (method : Method) : Bool :=
  method.kind = .regular && method.name == ReservedName.constructor

/-- A call. -/
structure Invocation where
  position : Option Position
  authoritative : Bool
  method : Handle .method
  name : String
  /-- The number of arguments as written. -/
  arity : Nat
  /-- The variable the call is made on. -/
  base : Option (Handle .variable) := none
  /-- The variable the result is assigned to. -/
  target : Option (Handle .variable) := none
deriving DecidableEq, Repr, Inhabited

/-- The creation of an object, or of an array of one or more dimensions. -/
structure Allocation where
  position : Option Position
  authoritative : Bool
  method : Handle .method
  type : String
  dimensions : Nat
  /-- The variable the created object is assigned to. -/
  target : Option (Handle .variable) := none
deriving DecidableEq, Repr, Inhabited

/-- A read or write of a field, or a read of an enclosing instance. -/
structure FieldAccess where
  position : Option Position
  method : Handle .method
  name : String
  kind : AccessKind
  /-- The type that qualifies a read of an enclosing instance. -/
  outerThis : Option String
deriving DecidableEq, Repr, Inhabited

/-- A cast. -/
structure Cast where
  position : Option Position
  method : Handle .method
  type : String
deriving DecidableEq, Repr, Inhabited

/-- A reference to a method. -/
structure MethodRef where
  position : Option Position
  method : Handle .method
  name : String
  targetType : Option String
deriving DecidableEq, Repr, Inhabited

/-- What a variable is. -/
inductive VariableKind where
  | receiver
  | parameter (index : Nat)
  | localVariable
deriving DecidableEq, Repr, Inhabited

/-- A receiver, parameter or local variable. -/
structure Variable where
  position : Option Position
  method : Handle .method
  name : String
  type : Option String
  kind : VariableKind
  /-- The name of the variable for all files. -/
  symbol : String
deriving DecidableEq, Repr, Inhabited

/-- A string literal. -/
structure StringConstant where
  position : Option Position
  method : Handle .method
  value : String
deriving DecidableEq, Repr, Inhabited

/-- The use of a type's name inside a type. -/
structure TypeUsage where
  position : Option Position
  declaring : Handle .type
  name : String
  /-- The compiled type the name was found to denote. -/
  resolved : Option String := none
deriving DecidableEq, Repr, Inhabited

end Correlate.Source
