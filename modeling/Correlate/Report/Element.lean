/-
Module: Correlate.Report.Element
Purpose: Source elements as a report lists them.
Main exports: ReportedElement, ReportedElement.ofHandle
-/
import Correlate.Compiled.Pool
import Correlate.Matching.Registry
import Correlate.Source.File

namespace Correlate

/-- A source element in a report. -/
structure ReportedElement where
  file : String
  kind : ElementKind
  name : String
  position : Option Position
  /-- The name of the element for all files, if it has one. -/
  id : Option String
  authoritative : Bool
  /-- The parameter types of a method with the detail of both spellings. -/
  paramTypes : List String
deriving DecidableEq, Repr, Inhabited

namespace ReportedElement

/-- The name that an element has for all files. -/
def idIn? (file : Source.File) (element : Source.Ref) : Option String :=
  match element with
  | ⟨.type, i⟩ => some (file.typeAt ⟨i⟩).binaryName
  | ⟨.field, i⟩ =>
      let field := file.fieldAt ⟨i⟩
      some s!"{(file.typeAt field.declaring).binaryName}.{field.name}"
  | ⟨.method, i⟩ => some (file.qualifiedName ⟨i⟩)
  | ⟨.variable, i⟩ => some (file.variableAt ⟨i⟩).symbol
  | _ => none

/-- A parameter type with the detail of both spellings. -/
def paramType (spelling : Option String) (type : String) : String :=
  match spelling with
  | some spelling => TypeName.synthesize spelling type
  | none => type

/-- The parameter types of a matched method.  Captured values come first in the compiled parameters
and are left out. -/
def paramTypesIn (pool : Compiled.Pool) (file : Source.File) (element : Source.Ref) : List String :=
  match element with
  | ⟨.method, i⟩ =>
      match file.linkedMethod? ⟨i⟩ with
      | some compiled =>
          let spellings := file.paramTypes ⟨i⟩
          let types := (pool.methodAt compiled).signature.params
          List.zipWith paramType spellings (types.drop (types.length - spellings.length))
      | none => []
  | _ => []

/-- An element of a file as it is reported. -/
def ofElement (pool : Compiled.Pool) (synthesizeTypes : Bool) (file : Source.File)
    (element : Source.Ref) : ReportedElement :=
  { file := file.path
    kind := file.elementKind element
    name := file.label element
    position := file.position? element
    id := idIn? file element
    authoritative := file.isAuthoritative element
    paramTypes := if synthesizeTypes then paramTypesIn pool file element else [] }

/-- An element of one of the files as it is reported. -/
def ofHandle (pool : Compiled.Pool) (synthesizeTypes : Bool) (files : List Source.File)
    (handle : Matching.SourceHandle) : ReportedElement :=
  ofElement pool synthesizeTypes (files[handle.file]?.getD default) handle.element

end ReportedElement

end Correlate
