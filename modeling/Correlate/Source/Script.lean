/-
Module: Correlate.Source.Script
Purpose: Sequences of steps that build a file, as data.
Main exports: Step, File.perform, File.performAll
-/
import Correlate.Source.Assembly

namespace Correlate.Source

/-- One step of building a file. -/
inductive Step where
  | importName (text : String) (isStatic : Bool) (position : Option Position)
  | type (name : String) (parent : Option (Handle .type)) (position : Option Position)
  | anonymousType (parent : Handle .type) (position : Option Position)
  | field (declaring : Handle .type) (name type : String) (position : Option Position)
  | placeholderField (declaring : Handle .type) (name type : String)
  | method (declaring : Handle .type) (name : String) (returnType : Option String)
      (isStatic : Bool) (position : Option Position)
  | constructor (declaring : Handle .type) (position : Option Position)
  | instanceInitializer (declaring : Handle .type) (position : Option Position)
  | staticInitializer (type : Handle .type) (position : Option Position)
  | lambda (parent : Handle .method) (position : Option Position)
  | param (method : Handle .method) (name : String) (type : Option String)
      (position : Option Position)
  | localVariable (method : Handle .method) (name : String) (type : Option String)
      (position : Option Position)
  | invocation (method : Handle .method) (name : String) (arity : Nat)
      (position : Option Position) (base target : Option (Handle .variable))
  | placeholderInvocation (method : Handle .method) (name : String) (arity line : Nat)
  | allocation (method : Handle .method) (type : String) (dimensions : Nat)
      (position : Option Position) (target : Option (Handle .variable))
  | placeholderAllocation (method : Handle .method) (type : String) (line : Nat)
  | fieldAccess (method : Handle .method) (name : String) (kind : AccessKind)
      (position : Option Position)
  | outerThis (method : Handle .method) (qualifier : String) (position : Option Position)
  | cast (method : Handle .method) (type : String) (position : Option Position)
  | methodRef (method : Handle .method) (name : String) (targetType : Option String)
      (position : Option Position)
  | stringConstant (method : Handle .method) (value : String) (position : Option Position)
  | typeUsage (declaring : Handle .type) (name : String) (position : Option Position)
  | link (element : Ref) (link : Link)
deriving DecidableEq, Repr, Inhabited

/-- What a step answers. -/
inductive Answer where
  | nothing
  | added (element : Ref)
  | accepted (yes : Bool)
deriving DecidableEq, Repr, Inhabited

/-- A file and the name of what was added to it. -/
def named {kind : Kind} (added : File × Handle kind) : File × Answer :=
  (added.1, .added added.2)

namespace File

/-- Perform one step. -/
def perform (file : File) : Step → File × Answer
  | .importName text isStatic position =>
      (file.addImport (.parse text isStatic position), .nothing)
  | .type name parent position => named (file.addType name parent position)
  | .anonymousType parent position => named (file.addAnonymousType parent position)
  | .field declaring name type position => named (file.addField declaring name type position)
  | .placeholderField declaring name type => named (file.addPlaceholderField declaring name type)
  | .method declaring name returnType isStatic position =>
      named (file.addMethod declaring name returnType isStatic position)
  | .constructor declaring position => named (file.addConstructor declaring position)
  | .instanceInitializer declaring position =>
      named (file.addInstanceInitializer declaring position)
  | .staticInitializer type position => named (file.declareStaticInitializer type position)
  | .lambda parent position => named (file.addLambda parent position)
  | .param method name type position => named (file.addParam method name type position)
  | .localVariable method name type position => named (file.addLocal method name type position)
  | .invocation method name arity position base target =>
      named (file.addInvocation method name arity position base target)
  | .placeholderInvocation method name arity line =>
      named (file.addPlaceholderInvocation method name arity line)
  | .allocation method type dimensions position target =>
      named (file.addAllocation method type dimensions position target)
  | .placeholderAllocation method type line =>
      named (file.addPlaceholderAllocation method type line)
  | .fieldAccess method name kind position =>
      named (file.addFieldAccess method name kind position)
  | .outerThis method qualifier position =>
      named (file.addOuterThisAccess method qualifier position)
  | .cast method type position => named (file.addCast method type position)
  | .methodRef method name targetType position =>
      named (file.addMethodRef method name targetType position)
  | .stringConstant method value position => named (file.addStringConstant method value position)
  | .typeUsage declaring name position => named (file.addTypeUsage declaring name position)
  | .link element link =>
      match file.setLink? element link with
      | some linked => (linked, .accepted true)
      | none => (file, .accepted false)

/-- Perform steps in order. -/
def performAll (file : File) (steps : List Step) : File :=
  steps.foldl (fun file step => (file.perform step).1) file

end File

end Correlate.Source
