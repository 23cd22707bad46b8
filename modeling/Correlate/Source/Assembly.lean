/-
Module: Correlate.Source.Assembly
Purpose: Building a file, one element after the other in document order.
Main exports: File.addType, File.addAnonymousType, File.addMethod, File.addLambda, File.addParam,
  File.addInvocation, File.addPlaceholderField, File.addPlaceholderInvocation, ...
-/
import Correlate.Source.File

namespace Correlate.Source.File

/-- The file with one type changed. -/
def changeType (type : Handle .type) (change : TypeDecl → TypeDecl) (file : File) : File :=
  { file with types := file.types.modify type.index change }

/-- The file with one method changed. -/
def changeMethod (method : Handle .method) (change : Method → Method) (file : File) : File :=
  { file with methods := file.methods.modify method.index change }

def addImport (declaration : Import) (file : File) : File :=
  { file with imports := file.imports ++ [declaration] }

/-! ### Variables -/

/-- Add a variable to the file without listing it in its method. -/
def pushVariable (method : Handle .method) (name : String) (type : Option String)
    (kind : VariableKind) (position : Option Position) (file : File) : File × Handle .variable :=
  let symbol := s!"{file.qualifiedName method}/{name}"
  ({ file with vars := file.vars.push { position, method, name, type, kind, symbol } },
    ⟨file.vars.size⟩)

/-- Add a parameter after those the method has. -/
def addParam (method : Handle .method) (name : String) (type : Option String)
    (position : Option Position) (file : File) : File × Handle .variable :=
  let index := (file.methodAt method).params.length
  let (file, added) := file.pushVariable method name type (.parameter index) position
  (file.changeMethod method fun record => { record with params := record.params ++ [added] }, added)

def addLocal (method : Handle .method) (name : String) (type : Option String)
    (position : Option Position) (file : File) : File × Handle .variable :=
  let (file, added) := file.pushVariable method name type .localVariable position
  (file.changeMethod method fun record => { record with locals := record.locals ++ [added] }, added)

/-! ### Types and members -/

/-- Add a method without child elements, and its receiver unless it is static.  A lambda is not
listed in its type. -/
def pushMethod (method : Method) (file : File) : File × Handle .method :=
  let added : Handle .method := ⟨file.methods.size⟩
  let file := { file with methods := file.methods.push method }
  let file :=
    if method.isStatic then file
    else
      let (file, receiver) := file.pushVariable added "this" none .receiver method.position
      file.changeMethod added fun record => { record with receiver := some receiver }
  let file :=
    if method.kind = .lambda then file
    else file.changeType method.declaring fun type => { type with methods := type.methods ++ [added] }
  (file, added)

/-- Add a type and its class initializer, which no static initializer declares yet. -/
def pushType (name binaryName : String) (parent : Option (Handle .type)) (anonymous : Bool)
    (position : Option Position) (file : File) : File × Handle .type :=
  let added : Handle .type := ⟨file.types.size⟩
  let type : TypeDecl :=
    { position, name, binaryName, parent, anonymous, classInitializer := ⟨file.methods.size⟩ }
  let file := { file with types := file.types.push type }
  let (file, _) := file.pushMethod
    { position, kind := .classInitializer, declaring := added, parent := none
      name := ReservedName.classInitializer, returnType := none, isStatic := true, implicit := true }
  (file, added)

/-- The binary name of a named type. -/
def binaryNameOf (file : File) (name : String) : Option (Handle .type) → String
  | some parent => s!"{(file.typeAt parent).binaryName}${name}"
  | none => if file.package.isEmpty then name else s!"{file.package}.{name}"

/-- Add a named type, nested in `parent` if that is given. -/
def addType (name : String) (parent : Option (Handle .type)) (position : Option Position)
    (file : File) : File × Handle .type :=
  file.pushType name (file.binaryNameOf name parent) parent false position

/-- Add an anonymous type.  Those of one type are numbered from one in document order. -/
def addAnonymousType (parent : Handle .type) (position : Option Position) (file : File) :
    File × Handle .type :=
  let number := (file.typeAt parent).anonymousCount + 1
  let name := toString number
  let binaryName := file.binaryNameOf name (some parent)
  (file.changeType parent fun type => { type with anonymousCount := number }).pushType
    name binaryName (some parent) true position

/-- Add a field and list it in its type. -/
def pushField (field : Field) (file : File) : File × Handle .field :=
  let added : Handle .field := ⟨file.fields.size⟩
  (({ file with fields := file.fields.push field } : File).changeType field.declaring
    fun type => { type with fields := type.fields ++ [added] }, added)

def addField (declaring : Handle .type) (name type : String) (position : Option Position)
    (file : File) : File × Handle .field :=
  file.pushField { position, authoritative := true, declaring, name, type }

/-- Add a field that the source does not declare, at the place of its type. -/
def addPlaceholderField (declaring : Handle .type) (name type : String) (file : File) :
    File × Handle .field :=
  file.pushField
    { position := (file.typeAt declaring).position, authoritative := false, declaring, name, type }

def addMethod (declaring : Handle .type) (name : String) (returnType : Option String)
    (isStatic : Bool) (position : Option Position) (file : File) : File × Handle .method :=
  file.pushMethod
    { position, kind := .regular, declaring, parent := none, name, returnType, isStatic
      implicit := false }

def addConstructor (declaring : Handle .type) (position : Option Position) (file : File) :
    File × Handle .method :=
  file.addMethod declaring ReservedName.constructor none false position

/-- Add an instance initializer block as a method of its own. -/
def addInstanceInitializer (declaring : Handle .type) (position : Option Position) (file : File) :
    File × Handle .method :=
  file.pushMethod
    { position, kind := .instanceInitializer, declaring, parent := none
      name := ReservedName.instanceInitializer, returnType := none, isStatic := false
      implicit := false }

/-- A class initializer that a static initializer stands for.  The first one that does gives it its
position, if it has one. -/
def declared (position : Option Position) (method : Method) : Method :=
  if method.implicit then
    { method with implicit := false, position := position <|> method.position }
  else method

/-- The class initializer of a type, where a static initializer is declared. -/
def declareStaticInitializer (type : Handle .type) (position : Option Position) (file : File) :
    File × Handle .method :=
  let initializer := (file.typeAt type).classInitializer
  (file.changeMethod initializer (declared position), initializer)

/-- Add a lambda to the method around it.  Lambdas are numbered throughout the file. -/
def addLambda (parent : Handle .method) (position : Option Position) (file : File) :
    File × Handle .method :=
  let method : Method :=
    { position, kind := .lambda, declaring := (file.methodAt parent).declaring, parent := some parent
      name := s!"lambda${file.lambdaCount}", returnType := none, isStatic := true, implicit := false }
  let (file, added) := ({ file with lambdaCount := file.lambdaCount + 1 } : File).pushMethod method
  (file.changeMethod parent fun record => { record with lambdas := record.lambdas ++ [added] }, added)

/-! ### Bodies -/

/-- Add a call and list it in its method. -/
def pushInvocation (call : Invocation) (file : File) : File × Handle .invocation :=
  let added : Handle .invocation := ⟨file.invocations.size⟩
  (({ file with invocations := file.invocations.push call } : File).changeMethod call.method
    fun record => { record with invocations := record.invocations ++ [added] }, added)

/-- Add a call on `base` whose result is assigned to `target`. -/
def addInvocation (method : Handle .method) (name : String) (arity : Nat)
    (position : Option Position) (base target : Option (Handle .variable)) (file : File) :
    File × Handle .invocation :=
  file.pushInvocation { position, authoritative := true, method, name, arity, base, target }

/-- Add a call that the source does not contain, on a line of its own. -/
def addPlaceholderInvocation (method : Handle .method) (name : String) (arity line : Nat)
    (file : File) : File × Handle .invocation :=
  file.pushInvocation
    { position := some (.wholeLine line), authoritative := false, method, name, arity }

/-- Add an allocation and list it in its method. -/
def pushAllocation (allocation : Allocation) (file : File) : File × Handle .allocation :=
  let added : Handle .allocation := ⟨file.allocations.size⟩
  (({ file with allocations := file.allocations.push allocation } : File).changeMethod
    allocation.method fun record =>
      { record with allocations := record.allocations ++ [added] }, added)

/-- Add an allocation whose object is assigned to `target`. -/
def addAllocation (method : Handle .method) (type : String) (dimensions : Nat)
    (position : Option Position) (target : Option (Handle .variable)) (file : File) :
    File × Handle .allocation :=
  file.pushAllocation { position, authoritative := true, method, type, dimensions, target }

/-- Add an allocation that the source does not contain, on a line of its own. -/
def addPlaceholderAllocation (method : Handle .method) (type : String) (line : Nat) (file : File) :
    File × Handle .allocation :=
  file.pushAllocation
    { position := some (.wholeLine line), authoritative := false, method, type
      dimensions := TypeName.dimensionCount type }

/-- Add a field access and list it in its method. -/
def pushFieldAccess (access : FieldAccess) (file : File) : File × Handle .fieldAccess :=
  let added : Handle .fieldAccess := ⟨file.fieldAccesses.size⟩
  (({ file with fieldAccesses := file.fieldAccesses.push access } : File).changeMethod access.method
    fun record => { record with fieldAccesses := record.fieldAccesses ++ [added] }, added)

def addFieldAccess (method : Handle .method) (name : String) (kind : AccessKind)
    (position : Option Position) (file : File) : File × Handle .fieldAccess :=
  file.pushFieldAccess { position, method, name, kind, outerThis := none }

/-- Add a read of the enclosing instance of a type. -/
def addOuterThisAccess (method : Handle .method) (qualifier : String) (position : Option Position)
    (file : File) : File × Handle .fieldAccess :=
  file.pushFieldAccess { position, method, name := "this", kind := .read, outerThis := some qualifier }

def addCast (method : Handle .method) (type : String) (position : Option Position) (file : File) :
    File × Handle .cast :=
  let added : Handle .cast := ⟨file.casts.size⟩
  (({ file with casts := file.casts.push { position, method, type } } : File).changeMethod method
    fun record => { record with casts := record.casts ++ [added] }, added)

def addMethodRef (method : Handle .method) (name : String) (targetType : Option String)
    (position : Option Position) (file : File) : File × Handle .methodRef :=
  let added : Handle .methodRef := ⟨file.methodRefs.size⟩
  (({ file with methodRefs := file.methodRefs.push { position, method, name, targetType } } : File
    ).changeMethod method fun record =>
      { record with methodRefs := record.methodRefs ++ [added] }, added)

def addStringConstant (method : Handle .method) (value : String) (position : Option Position)
    (file : File) : File × Handle .stringConstant :=
  let added : Handle .stringConstant := ⟨file.stringConstants.size⟩
  (({ file with stringConstants := file.stringConstants.push { position, method, value } } : File
    ).changeMethod method fun record =>
      { record with stringConstants := record.stringConstants ++ [added] }, added)

def addTypeUsage (declaring : Handle .type) (name : String) (position : Option Position)
    (file : File) : File × Handle .typeUsage :=
  let added : Handle .typeUsage := ⟨file.typeUsages.size⟩
  (({ file with typeUsages := file.typeUsages.push { position, declaring, name } } : File
    ).changeType declaring fun type => { type with typeUsages := type.typeUsages ++ [added] }, added)

/-- Note which compiled type a used name denotes. -/
def resolveUsage (usage : Handle .typeUsage) (name : String) (file : File) : File :=
  { file with
    typeUsages := file.typeUsages.modify usage.index fun record =>
      { record with resolved := some name } }

end Correlate.Source.File
