/-
Module: Correlate.Compiled.Pool
Purpose: All elements of the compiled code of one run.
Main exports: Pool, Pool.typeNamed?, Pool.methodNamed?, Pool.findMethod?, Pool.elementId,
  Pool.elementLine, Pool.owningMethod?
-/
import Std.Data.TreeMap
import Correlate.Compiled.Element

namespace Correlate.Compiled

/-- The elements of compiled code kind by kind, with indexes by id. -/
structure Pool where
  types : Array TypeDecl := #[]
  fields : Array Field := #[]
  methods : Array Method := #[]
  invocations : Array Invocation := #[]
  allocations : Array Allocation := #[]
  fieldAccesses : Array FieldAccess := #[]
  methodRefs : Array MethodRef := #[]
  casts : Array Cast := #[]
  lambdas : Array Lambda := #[]
  vars : Array Variable := #[]
  typeIndex : Std.TreeMap String (Handle .type) := {}
  methodIndex : Std.TreeMap String (Handle .method) := {}
  /-- The declared arities of the methods of variable arity, by type and name. -/
  varargArities : Std.TreeMap String (List Nat) := {}

namespace Pool

instance : Inhabited Pool := ⟨{}⟩

/-! A handle that names nothing stands for an element without id and content. -/

def typeAt (pool : Pool) (handle : Handle .type) : TypeDecl :=
  pool.types[handle.index]?.getD default

def fieldAt (pool : Pool) (handle : Handle .field) : Field :=
  pool.fields[handle.index]?.getD default

def methodAt (pool : Pool) (handle : Handle .method) : Method :=
  pool.methods[handle.index]?.getD default

def invocationAt (pool : Pool) (handle : Handle .invocation) : Invocation :=
  pool.invocations[handle.index]?.getD default

def allocationAt (pool : Pool) (handle : Handle .allocation) : Allocation :=
  pool.allocations[handle.index]?.getD default

def fieldAccessAt (pool : Pool) (handle : Handle .fieldAccess) : FieldAccess :=
  pool.fieldAccesses[handle.index]?.getD default

def methodRefAt (pool : Pool) (handle : Handle .methodRef) : MethodRef :=
  pool.methodRefs[handle.index]?.getD default

def castAt (pool : Pool) (handle : Handle .cast) : Cast :=
  pool.casts[handle.index]?.getD default

def lambdaAt (pool : Pool) (handle : Handle .lambda) : Lambda :=
  pool.lambdas[handle.index]?.getD default

def variableAt (pool : Pool) (handle : Handle .variable) : Variable :=
  pool.vars[handle.index]?.getD default

/-- The type with the given binary name. -/
def typeNamed? (pool : Pool) (name : String) : Option (Handle .type) :=
  pool.typeIndex[name]?

/-- The method with the given id. -/
def methodNamed? (pool : Pool) (id : String) : Option (Handle .method) :=
  pool.methodIndex[id]?

/-- The first method of a type that has the given signature. -/
def findMethod? (pool : Pool) (owner : Handle .type) (signature : Signature) :
    Option (Handle .method) :=
  (pool.typeAt owner).methods.find? fun method => (pool.methodAt method).signature = signature

/-- The declared arities of a method of variable arity. -/
def varargAritiesOf? (pool : Pool) (name : String) : Option (List Nat) :=
  pool.varargArities[name]?

/-- The number of elements of a kind. -/
def count (pool : Pool) : ElementKind → Nat
  | .type => pool.types.size
  | .field => pool.fields.size
  | .method => pool.methods.size
  | .invocation => pool.invocations.size
  | .allocation => pool.allocations.size
  | .fieldAccess => pool.fieldAccesses.size
  | .methodRef => pool.methodRefs.size
  | .cast => pool.casts.size
  | .lambda => pool.lambdas.size
  | .variable => pool.vars.size
  | .stringConstant => 0
  | .typeUsage => 0

/-- The pool holds no type, and so no element at all. -/
def isEmpty (pool : Pool) : Bool :=
  pool.types.isEmpty

/-- The id of an element. -/
def elementId (pool : Pool) (element : Ref) : String :=
  match element with
  | ⟨.type, i⟩ => (pool.typeAt ⟨i⟩).id
  | ⟨.field, i⟩ => (pool.fieldAt ⟨i⟩).id
  | ⟨.method, i⟩ => (pool.methodAt ⟨i⟩).id
  | ⟨.invocation, i⟩ => (pool.invocationAt ⟨i⟩).id
  | ⟨.allocation, i⟩ => (pool.allocationAt ⟨i⟩).id
  | ⟨.fieldAccess, i⟩ => (pool.fieldAccessAt ⟨i⟩).id
  | ⟨.methodRef, i⟩ => (pool.methodRefAt ⟨i⟩).id
  | ⟨.cast, i⟩ => (pool.castAt ⟨i⟩).id
  | ⟨.lambda, i⟩ => (pool.lambdaAt ⟨i⟩).id
  | ⟨.variable, i⟩ => (pool.variableAt ⟨i⟩).id

/-- The source line an element is hinted at.  Fields and variables carry no hint. -/
def elementLine (pool : Pool) (element : Ref) : Option Nat :=
  match element with
  | ⟨.type, i⟩ => (pool.typeAt ⟨i⟩).line
  | ⟨.field, _⟩ => none
  | ⟨.method, i⟩ => (pool.methodAt ⟨i⟩).line
  | ⟨.invocation, i⟩ => (pool.invocationAt ⟨i⟩).line
  | ⟨.allocation, i⟩ => (pool.allocationAt ⟨i⟩).line
  | ⟨.fieldAccess, i⟩ => (pool.fieldAccessAt ⟨i⟩).line
  | ⟨.methodRef, i⟩ => (pool.methodRefAt ⟨i⟩).line
  | ⟨.cast, i⟩ => (pool.castAt ⟨i⟩).line
  | ⟨.lambda, i⟩ => (pool.lambdaAt ⟨i⟩).line
  | ⟨.variable, _⟩ => none

/-- The method that holds a variable or an element of a body. -/
def owningMethod? (pool : Pool) (element : Ref) : Option (Handle .method) :=
  match element with
  | ⟨.type, _⟩ => none
  | ⟨.field, _⟩ => none
  | ⟨.method, _⟩ => none
  | ⟨.invocation, i⟩ => some (pool.invocationAt ⟨i⟩).method
  | ⟨.allocation, i⟩ => some (pool.allocationAt ⟨i⟩).method
  | ⟨.fieldAccess, i⟩ => some (pool.fieldAccessAt ⟨i⟩).method
  | ⟨.methodRef, i⟩ => some (pool.methodRefAt ⟨i⟩).method
  | ⟨.cast, i⟩ => some (pool.castAt ⟨i⟩).method
  | ⟨.lambda, i⟩ => some (pool.lambdaAt ⟨i⟩).method
  | ⟨.variable, i⟩ => some (pool.variableAt ⟨i⟩).method

end Pool

end Correlate.Compiled
