/-
Module: Correlate.Matching.TypeUse
Purpose: The compiled types that names used in a matched type denote.
Main exports: denotedType?, resolveUsages
-/
import Correlate.Compiled.Pool
import Correlate.Source.Assembly
import Correlate.Source.Resolver

namespace Correlate.Matching

/-- The type that a candidate stands for where the compiled type does not mention it: a type of the
pool or a boxed type, else the boxed type of that simple name. -/
def knownType? (pool : Compiled.Pool) (candidate : String) : Option String :=
  let inLang := s!"java.lang.{candidate}"
  if (pool.typeNamed? candidate).isSome || TypeName.isBoxed candidate then some candidate
  else if TypeName.isBoxed inLang then some inLang
  else none

/-- The type that a used name denotes: the first candidate that the compiled type mentions, else the
first one that is known. -/
def denotedType? (pool : Compiled.Pool) (compiledType : Compiled.TypeDecl)
    (candidates : List String) : Option String :=
  let mentioned := candidates.find? fun candidate =>
    compiledType.annotations.contains candidate || compiledType.referencedTypes.contains candidate
  mentioned <|> candidates.findSome? (knownType? pool)

/-- Resolve one use of a name. -/
def resolveUsageIn (pool : Compiled.Pool) (compiledType : Compiled.TypeDecl) (file : Source.File)
    (usage : Source.Handle .typeUsage) : Source.File :=
  match denotedType? pool compiledType (file.resolve (some (file.typeUsageAt usage).name)) with
  | some name => file.resolveUsage usage name
  | none => file

/-- Resolve the names used in a type. -/
def resolveUsages (pool : Compiled.Pool) (type : Source.Handle .type)
    (compiledType : Compiled.Handle .type) (file : Source.File) : Source.File :=
  (file.typeAt type).typeUsages.foldl (resolveUsageIn pool (pool.typeAt compiledType)) file

end Correlate.Matching
