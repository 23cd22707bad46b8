/-
Module: Correlate.Source.Import
Purpose: Import declarations.
Main exports: Import, Import.parse
-/
import Correlate.Position
import Correlate.TypeName

namespace Correlate.Source

/-- An import.  One of all members names the package or type without the star. -/
structure Import where
  name : String
  isStatic : Bool
  isWildcard : Bool
  position : Option Position
deriving DecidableEq, Repr, Inhabited

namespace Import

open Text

/-- Read an import as it is written. -/
def parse (text : String) (isStatic : Bool) (position : Option Position) : Import :=
  let name := trimBlanks text.toList
  match dropEnding? ['.', '*'] name with
  | some package => { name := .ofList package, isStatic, isWildcard := true, position }
  | none => { name := .ofList name, isStatic, isWildcard := false, position }

/-- The last segment of the imported name. -/
def simpleName (declaration : Import) : String :=
  TypeName.unqualified declaration.name

/-- The import of one type, not of a static member and not of all members. -/
def isSingleType (declaration : Import) : Bool :=
  !declaration.isStatic && !declaration.isWildcard

/-- The import of all types of a package or type. -/
def isTypeWildcard (declaration : Import) : Bool :=
  declaration.isWildcard && !declaration.isStatic

end Import

end Correlate.Source
