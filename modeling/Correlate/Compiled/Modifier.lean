/-
Module: Correlate.Compiled.Modifier
Purpose: Access and property flags of compiled types and members.
Main exports: Modifier, Modifiers
-/

namespace Correlate.Compiled

/-- A flag of a compiled type, field or method. -/
inductive Modifier where
  | publicAccess
  | privateAccess
  | protectedAccess
  | static
  | final
  | abstract
  | synthetic
  | bridge
  /-- The method takes a trailing array of variable length. -/
  | varargs
  | interface
  | enumeration
deriving DecidableEq, Repr, Inhabited

namespace Modifier

/-- All flags, in the order of their bits. -/
def all : List Modifier :=
  [.publicAccess, .privateAccess, .protectedAccess, .static, .final, .abstract, .synthetic, .bridge,
   .varargs, .interface, .enumeration]

/-- The keyword of a flag. -/
def keyword : Modifier → String
  | .publicAccess => "public"
  | .privateAccess => "private"
  | .protectedAccess => "protected"
  | .static => "static"
  | .final => "final"
  | .abstract => "abstract"
  | .synthetic => "synthetic"
  | .bridge => "bridge"
  | .varargs => "varargs"
  | .interface => "interface"
  | .enumeration => "enum"

/-- The flag with the given keyword. -/
def ofKeyword? (keyword : String) : Option Modifier :=
  all.find? (·.keyword == keyword)

theorem ofKeyword?_keyword (modifier : Modifier) :
    ofKeyword? modifier.keyword = some modifier := by
  cases modifier <;> decide +kernel

end Modifier

/-- The flags of one declaration. -/
abbrev Modifiers := List Modifier

namespace Modifiers

/-- The flags as one number: each has the bit of its place in the list of all flags. -/
def bits (modifiers : Modifiers) : Nat :=
  (Modifier.all.mapIdx fun place modifier =>
    if modifiers.contains modifier then 1 <<< place else 0).foldl (· + ·) 0

/-- The declaration belongs to the type and not to its instances. -/
def isStatic (modifiers : Modifiers) : Bool :=
  modifiers.contains .static

/-- The method takes a trailing array of variable length. -/
def isVarargs (modifiers : Modifiers) : Bool :=
  modifiers.contains .varargs

/-- The compiler added the method to forward to another one. -/
def isBridge (modifiers : Modifiers) : Bool :=
  modifiers.contains .bridge

end Modifiers

end Correlate.Compiled
