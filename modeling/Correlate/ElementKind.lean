/-
Module: Correlate.ElementKind
Purpose: The kinds of program elements that source code and compiled code share.
Main exports: ElementKind, AccessKind, maxLambdaNesting
-/

namespace Correlate

/-- The kinds of program elements. -/
inductive ElementKind where
  | type
  | field
  | method
  | invocation
  | allocation
  | fieldAccess
  | methodRef
  | cast
  | lambda
  | variable
  | stringConstant
  | typeUsage
deriving DecidableEq, Repr, Inhabited

namespace ElementKind

/-- All kinds, in the order in which they are listed everywhere. -/
def all : List ElementKind :=
  [.type, .field, .method, .invocation, .allocation, .fieldAccess, .methodRef, .cast, .lambda,
   .variable, .stringConstant, .typeUsage]

/-- The name of a kind in reports. -/
def text : ElementKind → String
  | .type => "type"
  | .field => "field"
  | .method => "method"
  | .invocation => "invocation"
  | .allocation => "allocation"
  | .fieldAccess => "field-access"
  | .methodRef => "method-ref"
  | .cast => "cast"
  | .lambda => "lambda"
  | .variable => "variable"
  | .stringConstant => "string-constant"
  | .typeUsage => "type-usage"

/-- The place of a kind in `all`. -/
def index : ElementKind → Nat
  | .type => 0
  | .field => 1
  | .method => 2
  | .invocation => 3
  | .allocation => 4
  | .fieldAccess => 5
  | .methodRef => 6
  | .cast => 7
  | .lambda => 8
  | .variable => 9
  | .stringConstant => 10
  | .typeUsage => 11

theorem all_getElem?_index (kind : ElementKind) : all[kind.index]? = some kind := by
  cases kind <;> rfl

/-- The kind with the given name. -/
def ofText? (name : String) : Option ElementKind :=
  all.find? (·.text == name)

end ElementKind

/-- How a field is accessed. -/
inductive AccessKind where
  | read
  | write
deriving DecidableEq, Repr, Inhabited

namespace AccessKind

/-- Both kinds, reads first. -/
def all : List AccessKind := [.read, .write]

/-- The name of an access kind in documents. -/
def text : AccessKind → String
  | .read => "read"
  | .write => "write"

/-- The name of an access kind in messages. -/
def title : AccessKind → String
  | .read => "Read"
  | .write => "Write"

/-- What stands before the field name where accesses of a method are numbered. -/
def idLead : AccessKind → String
  | .read => "read-field-"
  | .write => "write-field-"

def isRead : AccessKind → Bool
  | .read => true
  | .write => false

/-- The access kind with the given name. -/
def ofText? (name : String) : Option AccessKind :=
  all.find? (·.text == name)

end AccessKind

/-- Lambdas nested deeper than this inside one method are neither read nor matched. -/
def maxLambdaNesting : Nat := 32

end Correlate
