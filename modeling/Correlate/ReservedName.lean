/-
Module: Correlate.ReservedName
Purpose: Names that compiled code reserves for members and variables no programmer named.
Main exports: constructor, classInitializer, instanceInitializer, isOuterThisField, MethodSlot,
  MethodSlot.ofVariableId?
-/
import Correlate.Text.Decimal
import Correlate.Text.Segment

namespace Correlate

namespace ReservedName

open Text

/-- Constructors. -/
def constructor : String := "<init>"

/-- Class initializers. -/
def classInitializer : String := "<clinit>"

/-- Instance initializer blocks.  Compilation copies them into every constructor, so no compiled
method has this name. -/
def instanceInitializer : String := "<init>-block"

/-- The call that a creation of a multi-dimensional array may compile to. -/
def reflectiveArrayFactory : String := "java.lang.reflect.Array.newInstance"

/-- The last segment of a receiver's variable id. -/
def receiver : String := "@this"

/-- The last segment of a parameter's variable id, before the number of the parameter. -/
def parameterLead : String := "@parameter"

/-- The name of a field that holds an enclosing instance, before its number. -/
def outerThisLead : String := "this$"

/-- Class initializers and instance initializer blocks. -/
def isInitializer (name : String) : Bool :=
  name == classInitializer || name == instanceInitializer

/-- Names of source methods that need not have a compiled method of the same name. -/
def isConstructorOrInitializer (name : String) : Bool :=
  name == constructor || isInitializer name

/-- The fields that hold an enclosing instance: `this$` and a number in ASCII digits. -/
def isOuterThisField (name : String) : Bool :=
  match dropLeading? outerThisLead.toList name.toList with
  | some number => (readDigits? number).isSome
  | none => false

end ReservedName

/-- The place of a variable in a compiled method. -/
inductive MethodSlot where
  | receiver
  /-- The number of a parameter, counted with the captured values in front. -/
  | parameter (index : Nat)
deriving DecidableEq, Repr, Inhabited

namespace MethodSlot

open Text

/-- The last segment of the id of the variable in this slot. -/
def segment : MethodSlot → String
  | .receiver => ReservedName.receiver
  | .parameter index => ReservedName.parameterLead ++ toString index

/-- The id of the variable in this slot of a method. -/
def variableId (methodId : String) (slot : MethodSlot) : String :=
  methodId ++ "/" ++ slot.segment

/-- The slot that a variable id names with its last segment. -/
def ofVariableId? (id : String) : Option MethodSlot :=
  let last := afterLast '/' id.toList
  if last = ReservedName.receiver.toList then some .receiver
  else do
    let number ← dropLeading? ReservedName.parameterLead.toList last
    let index ← readWord? number
    pure (.parameter index)

end MethodSlot

end Correlate
