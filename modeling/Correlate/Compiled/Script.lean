/-
Module: Correlate.Compiled.Script
Purpose: Sequences of building steps as data.
Main exports: Step, Builder.perform, Builder.performAll
-/
import Correlate.Compiled.Builder

namespace Correlate.Compiled

/-- One step of building a pool. -/
inductive Step where
  | type (id : String)
  | typeLine (owner : Handle .type) (line : Option Nat)
  | typeModifiers (owner : Handle .type) (modifiers : Modifiers)
  | superType (owner : Handle .type) (name : String)
  | annotate (owner : Handle .type) (name : String)
  | referencedType (owner : Handle .type) (name : String)
  | field (owner : Handle .type) (name fieldType : String) (modifiers : Modifiers)
  | method (owner : Handle .type) (signature : Signature) (modifiers : Modifiers)
  | methodLine (method : Handle .method) (line : Option Nat)
  | invocation (method : Handle .method) (targetType : String) (signature : Signature)
      (line : Option Nat)
  | allocation (method : Handle .method) (type : String) (line : Option Nat)
  | fieldAccess (method : Handle .method) (name : String) (type : Option String)
      (kind : AccessKind) (line : Option Nat)
  | methodRef (method : Handle .method) (targetType : Option String) (name : String)
      (line : Option Nat)
  | cast (method : Handle .method) (type : String) (line : Option Nat)
  | lambda (method : Handle .method) (implementationId : String) (line : Option Nat)
deriving DecidableEq, Repr, Inhabited

/-- A builder and the name of what was added to it. -/
def named {kind : Kind} (added : Builder × Handle kind) : Builder × Option Ref :=
  (added.1, some added.2.ref)

namespace Builder

/-- Perform one step.  A step that adds an element answers its name. -/
def perform (builder : Builder) : Step → Builder × Option Ref
  | .type id => named (builder.addType id)
  | .typeLine owner line => (builder.setTypeLine owner line, none)
  | .typeModifiers owner modifiers => (builder.setTypeModifiers owner modifiers, none)
  | .superType owner name => (builder.addSuperType owner name, none)
  | .annotate owner name => (builder.addAnnotation owner name, none)
  | .referencedType owner name => (builder.addReferencedType owner name, none)
  | .field owner name fieldType modifiers =>
      named (builder.addField owner name fieldType modifiers)
  | .method owner signature modifiers => named (builder.addMethod owner signature modifiers)
  | .methodLine method line => (builder.setMethodLine method line, none)
  | .invocation method targetType signature line =>
      named (builder.addInvocation method targetType signature line)
  | .allocation method type line => named (builder.addAllocation method type line)
  | .fieldAccess method name type kind line =>
      named (builder.addFieldAccess method name type kind line)
  | .methodRef method targetType name line =>
      named (builder.addMethodRef method targetType name line)
  | .cast method type line => named (builder.addCast method type line)
  | .lambda method implementationId line => named (builder.addLambda method implementationId line)

/-- Perform steps in order, with the answer of each. -/
def performAll (builder : Builder) : List Step → Builder × List (Option Ref)
  | [] => (builder, [])
  | step :: rest =>
      let (next, answer) := builder.perform step
      let (final, answers) := next.performAll rest
      (final, answer :: answers)

end Builder

end Correlate.Compiled
