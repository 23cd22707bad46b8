/-
Module: Correlate.Source.Resolver
Purpose: The compiled types and methods that a source spelling may denote.
Main exports: File.resolve, File.methodCandidates
-/
import Correlate.Grouping
import Correlate.Source.File

namespace Correlate.Source

/-!
Without a full front end a spelling stands for several binary names.  They are listed with the most
specific one first, and whoever asks takes the one that the compiled code knows.
-/

/-- A product of signature candidates is cut off at this size. -/
def maxSignatureCandidates : Nat := 4096

namespace File

open Correlate.TypeName

/-- The binary name of the first named type of the file with the given name. -/
def localType? (file : File) (name : String) : Option String :=
  (file.types.toList.find? fun type => !type.anonymous && type.name == name).map
    TypeDecl.binaryName

/-- The rest of a nested type's name after the name of the type around it and a separator. -/
def nestedRest? (outer name : String) : Option String :=
  match Text.dropLeading? outer.toList name.toList with
  | some ('.' :: rest) => some (.ofList rest)
  | some ('$' :: rest) => some (.ofList rest)
  | _ => none

/-- The binary name that a single-type import gives a name: that of the imported type, or of a type
nested in it. -/
def importedAs? (name : String) (declaration : Import) : Option String :=
  if declaration.simpleName = name then some (toBinary declaration.name)
  else
    (nestedRest? declaration.simpleName name).map fun rest =>
      toBinary s!"{declaration.name}.{rest}"

/-- The binary names of a name that no declaration and no single-type import explains: the name
itself, then the name in the file's package, then the name in each package imported as a whole. -/
def qualifiedNames (file : File) (name : String) : List String :=
  let inPackage := if file.package.isEmpty then [] else [s!"{file.package}.{name}"]
  let imported := (file.imports.filter Import.isTypeWildcard).map fun declaration =>
    s!"{declaration.name}.{name}"
  (name :: inPackage ++ imported).map toBinary

/-- The binary names that a simplified name without array dimensions may denote. -/
def resolveElement (file : File) (name : String) : List String :=
  if name.isEmpty || isPrimitive name then [name]
  else
    match file.localType? name with
    | some binaryName => [binaryName]
    | none =>
        match (file.imports.filter Import.isSingleType).findSome? (importedAs? name) with
        | some binaryName => [binaryName]
        | none => file.qualifiedNames name

/-- The compiled types that a spelling may denote, the most specific one first.  No spelling at all
is the type of nothing. -/
def resolve (file : File) : Option String → List String
  | none => ["void"]
  | some spelling =>
      let simplified := simplify spelling
      let dims := dimensions simplified
      distinct ((file.resolveElement (element simplified)).map (· ++ dims))

end File

/-- The ids of the methods a source signature may denote. -/
structure MethodCandidates where
  ids : List String
  /-- Candidates were left out. -/
  truncated : Bool
deriving DecidableEq, Repr, Inhabited

/-- A return type and the first parameter types. -/
abbrev PartialSignature := String × List String

/-- Each partial signature with each choice of the next parameter type. -/
def extendSignatures (signatures : List PartialSignature) (choices : List String) :
    List PartialSignature :=
  signatures.flatMap fun (returnType, params) =>
    choices.map fun choice => (returnType, params ++ [choice])

/-- The products of the given signatures with all choices, each step cut off at the limit, and
whether anything was cut off. -/
def signatureProducts : List PartialSignature → List (List String) → List PartialSignature × Bool
  | signatures, [] => (signatures, false)
  | signatures, choices :: rest =>
      let extended := extendSignatures signatures choices
      let (products, truncated) :=
        signatureProducts (extended.take maxSignatureCandidates) rest
      (products, truncated || maxSignatureCandidates < extended.length)

/-- The ids of the methods of `owner` that a source signature may denote: the product of the
candidates of the return type and of each parameter type. -/
def File.methodCandidates (file : File) (owner : String) (returnType : Option String)
    (name : String) (paramTypes : List (Option String)) : MethodCandidates :=
  let initial := (file.resolve returnType).map fun type => (type, [])
  let (products, truncated) := signatureProducts initial (paramTypes.map file.resolve)
  { ids := distinct (products.map fun (returnType, params) =>
      ({ name, returnType, params } : Compiled.Signature).idIn owner)
    truncated }

end Correlate.Source
