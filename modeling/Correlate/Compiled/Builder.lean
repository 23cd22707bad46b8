/-
Module: Correlate.Compiled.Builder
Purpose: Building a pool of compiled elements, one element after the other.
Main exports: Builder, Builder.finish, Build
-/
import Correlate.Compiled.Pool
import Correlate.Diagnostic

namespace Correlate.Compiled

/-!
An element of a body has the id `<method-id>/<key>/<n>`, where `n` counts the elements of the method
with the same key.  A type or method that is declared again keeps its first handle.
-/

/-- The elements added so far, and for each method how many ids each key has given out. -/
structure Builder where
  pool : Pool := {}
  counters : Std.TreeMap Nat (Std.TreeMap String Nat) := {}

namespace Builder

instance : Inhabited Builder := ⟨{}⟩

/-- The builder with its pool changed. -/
def withPool (change : Pool → Pool) (builder : Builder) : Builder :=
  { builder with pool := change builder.pool }

/-- The builder with one type changed. -/
def changeType (owner : Handle .type) (change : TypeDecl → TypeDecl) (builder : Builder) : Builder :=
  builder.withPool fun pool => { pool with types := pool.types.modify owner.index change }

/-- The builder with one method changed. -/
def changeMethod (method : Handle .method) (change : Method → Method) (builder : Builder) :
    Builder :=
  builder.withPool fun pool => { pool with methods := pool.methods.modify method.index change }

/-! ### Types and members -/

/-- Add a type, unless the id is known. -/
def addType (id : String) (builder : Builder) : Builder × Handle .type :=
  match builder.pool.typeNamed? id with
  | some known => (builder, known)
  | none =>
      let added : Handle .type := ⟨builder.pool.types.size⟩
      (builder.withPool fun pool =>
        { pool with
          types := pool.types.push { id }
          typeIndex := pool.typeIndex.insert id added }, added)

def setTypeLine (owner : Handle .type) (line : Option Nat) (builder : Builder) : Builder :=
  builder.changeType owner fun type => { type with line }

def setTypeModifiers (owner : Handle .type) (modifiers : Modifiers) (builder : Builder) : Builder :=
  builder.changeType owner fun type => { type with modifiers }

def addSuperType (owner : Handle .type) (name : String) (builder : Builder) : Builder :=
  builder.changeType owner fun type => { type with superTypes := type.superTypes ++ [name] }

def addAnnotation (owner : Handle .type) (name : String) (builder : Builder) : Builder :=
  builder.changeType owner fun type => { type with annotations := type.annotations ++ [name] }

def addReferencedType (owner : Handle .type) (name : String) (builder : Builder) : Builder :=
  builder.changeType owner fun type =>
    { type with referencedTypes := type.referencedTypes ++ [name] }

/-- Add a field.  A field that holds an enclosing instance makes its type an outer type of the
declaring type. -/
def addField (owner : Handle .type) (name fieldType : String) (modifiers : Modifiers)
    (builder : Builder) : Builder × Handle .field :=
  let added : Handle .field := ⟨builder.pool.fields.size⟩
  let id := fieldId (builder.pool.typeAt owner).id fieldType name
  let outer := if ReservedName.isOuterThisField name then [fieldType] else []
  ((builder.withPool fun pool =>
      { pool with
        fields := pool.fields.push { id, name, type := fieldType, declaring := owner, modifiers } }
    ).changeType owner fun type =>
      { type with outerTypes := type.outerTypes ++ outer, fields := type.fields ++ [added] }, added)

/-- The slots of a method: the receiver unless the method is static, then the parameters. -/
def slots (isStatic : Bool) (arity : Nat) : List MethodSlot :=
  (if isStatic then [] else [.receiver]) ++ (List.range arity).map .parameter

/-- Add a method and the variables of its slots, unless the id is known. -/
def addMethod (owner : Handle .type) (signature : Signature) (modifiers : Modifiers)
    (builder : Builder) : Builder × Handle .method :=
  let id := signature.idIn (builder.pool.typeAt owner).id
  match builder.pool.methodNamed? id with
  | some known => (builder, known)
  | none =>
      let added : Handle .method := ⟨builder.pool.methods.size⟩
      let first := builder.pool.vars.size
      let isStatic := modifiers.isStatic
      let firstParam := if isStatic then first else first + 1
      let vars := (slots isStatic signature.arity).map fun slot =>
        ({ id := slot.variableId id, method := added, slot } : Variable)
      let method : Method :=
        { id, declaring := owner, signature, modifiers
          receiver := if isStatic then none else some ⟨first⟩
          params := (List.range signature.arity).map fun i => ⟨firstParam + i⟩ }
      ((builder.withPool fun pool =>
          { pool with
            vars := pool.vars ++ vars
            methods := pool.methods.push method
            methodIndex := pool.methodIndex.insert id added }
        ).changeType owner fun type => { type with methods := type.methods ++ [added] }, added)

def setMethodLine (method : Handle .method) (line : Option Nat) (builder : Builder) : Builder :=
  builder.changeMethod method fun record => { record with line }

/-! ### Bodies -/

/-- How many ids of a method have the given key so far. -/
def keyCount (method : Handle .method) (key : String) (builder : Builder) : Nat :=
  ((builder.counters.getD method.index {})[key]?).getD 0

/-- The next id of a method with the given key. -/
def nextId (method : Handle .method) (key : String) (builder : Builder) : String :=
  s!"{(builder.pool.methodAt method).id}/{key}/{builder.keyCount method key}"

/-- One more id of a method has the given key. -/
def countKey (method : Handle .method) (key : String) (builder : Builder) : Builder :=
  let counts := (builder.counters.getD method.index {}).insert key (builder.keyCount method key + 1)
  { builder with counters := builder.counters.insert method.index counts }

/-- Add a call, keyed by the called method's type and name. -/
def addInvocation (method : Handle .method) (targetType : String) (signature : Signature)
    (line : Option Nat) (builder : Builder) : Builder × Handle .invocation :=
  let added : Handle .invocation := ⟨builder.pool.invocations.size⟩
  let key := namingId targetType signature.name
  let call : Invocation := { id := builder.nextId method key, method, targetType, signature, line }
  (((builder.countKey method key).withPool fun pool =>
      { pool with invocations := pool.invocations.push call }
    ).changeMethod method fun record =>
      { record with invocations := record.invocations ++ [added] }, added)

/-- Add a creation, keyed by the created type. -/
def addAllocation (method : Handle .method) (type : String) (line : Option Nat)
    (builder : Builder) : Builder × Handle .allocation :=
  let added : Handle .allocation := ⟨builder.pool.allocations.size⟩
  let key := s!"new {type}"
  let allocation : Allocation := { id := builder.nextId method key, method, type, line }
  (((builder.countKey method key).withPool fun pool =>
      { pool with allocations := pool.allocations.push allocation }
    ).changeMethod method fun record =>
      { record with allocations := record.allocations ++ [added] }, added)

/-- Add a field access, keyed by its kind and the field's name. -/
def addFieldAccess (method : Handle .method) (name : String) (type : Option String)
    (kind : AccessKind) (line : Option Nat) (builder : Builder) : Builder × Handle .fieldAccess :=
  let added : Handle .fieldAccess := ⟨builder.pool.fieldAccesses.size⟩
  let key := kind.idLead ++ name
  let access : FieldAccess := { id := builder.nextId method key, method, name, type, kind, line }
  (((builder.countKey method key).withPool fun pool =>
      { pool with fieldAccesses := pool.fieldAccesses.push access }
    ).changeMethod method fun record =>
      { record with fieldAccesses := record.fieldAccesses ++ [added] }, added)

/-- Add a method reference, keyed by the method's name. -/
def addMethodRef (method : Handle .method) (targetType : Option String) (name : String)
    (line : Option Nat) (builder : Builder) : Builder × Handle .methodRef :=
  let added : Handle .methodRef := ⟨builder.pool.methodRefs.size⟩
  let key := s!"<method-ref-{name}>"
  let methodRef : MethodRef := { id := builder.nextId method key, method, targetType, name, line }
  (((builder.countKey method key).withPool fun pool =>
      { pool with methodRefs := pool.methodRefs.push methodRef }
    ).changeMethod method fun record =>
      { record with methodRefs := record.methodRefs ++ [added] }, added)

/-- The key of all casts. -/
def castKey : String := "assign-cast"

def addCast (method : Handle .method) (type : String) (line : Option Nat) (builder : Builder) :
    Builder × Handle .cast :=
  let added : Handle .cast := ⟨builder.pool.casts.size⟩
  let cast : Cast := { id := builder.nextId method castKey, method, type, line }
  (((builder.countKey method castKey).withPool fun pool =>
      { pool with casts := pool.casts.push cast }
    ).changeMethod method fun record => { record with casts := record.casts ++ [added] }, added)

/-- The key of all lambdas. -/
def lambdaKey : String := "$$lambda$$"

/-- Add a lambda.  The method with its body may be added later. -/
def addLambda (method : Handle .method) (implementationId : String) (line : Option Nat)
    (builder : Builder) : Builder × Handle .lambda :=
  let added : Handle .lambda := ⟨builder.pool.lambdas.size⟩
  let lambda : Lambda := { id := builder.nextId method lambdaKey, method, implementationId, line }
  (((builder.countKey method lambdaKey).withPool fun pool =>
      { pool with lambdas := pool.lambdas.push lambda }
    ).changeMethod method fun record => { record with lambdas := record.lambdas ++ [added] }, added)

end Builder

/-! ### The finished pool -/

/-- A number in a strictly ascending list of numbers. -/
def insertAscending (n : Nat) : List Nat → List Nat
  | [] => [n]
  | first :: rest =>
      if n < first then n :: first :: rest
      else if n = first then first :: rest
      else first :: insertAscending n rest

/-- A finished pool and what was found missing in it. -/
structure Build where
  pool : Pool
  diagnostics : List Diagnostic

namespace Builder

/-- A lambda with the method that holds its body. -/
def linkLambda (pool : Pool) (lambda : Lambda) : Lambda :=
  { lambda with implementation := pool.methodNamed? lambda.implementationId }

/-- What is reported about a lambda whose body is in no method. -/
def missingImplementation (pool : Pool) (lambda : Lambda) : Diagnostic :=
  { kind := .missingInput
    file := (pool.typeAt (pool.methodAt lambda.method).declaring).id
    message := s!"lambda {lambda.id} refers to missing implementation {lambda.implementationId}" }

/-- The arities of the methods of variable arity with one more method. -/
def noteVarargs (pool : Pool) (arities : Std.TreeMap String (List Nat)) (method : Method) :
    Std.TreeMap String (List Nat) :=
  if method.modifiers.isVarargs then
    let name := namingId (pool.typeAt method.declaring).id method.name
    arities.insert name (insertAscending method.arity (arities.getD name []))
  else arities

/-- Link the lambdas to the methods that hold their bodies and index the methods of variable
arity. -/
def finish (builder : Builder) : Build :=
  let pool := builder.pool
  let lambdas := pool.lambdas.map (linkLambda pool)
  let unlinked := lambdas.toList.filter (·.implementation.isNone)
  { pool :=
      { pool with
        lambdas
        varargArities := pool.methods.foldl (noteVarargs pool) pool.varargArities }
    diagnostics := unlinked.map (missingImplementation pool) }

end Builder

end Correlate.Compiled
