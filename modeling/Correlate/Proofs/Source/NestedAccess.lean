/-
Module: Correlate.Proofs.Source.NestedAccess
Purpose: A nested type that is reached through the types around it denotes the same with points as
  with dollar signs between the names.
Main exports: Undivided, IsSimpleName, simplify_nested, File.nestedRest?_nested,
  File.importedAs?_nested, File.resolve_nested
-/
import Correlate.Proofs.BinaryForm
import Correlate.Source.Resolver

namespace Correlate

/-!
A chain of names that starts with a type can be spelled with points or with dollar signs.  Neither
spelling is the name of one type, so declarations of the file do not explain it, and an import does only
if it imports the first of the types.  All that is left is put in binary form, which does not tell the
two spellings apart.
-/

namespace TypeName

open Text

/-! ### Names without separators -/

/-- No point and no dollar sign divides the name. -/
def Undivided (name : String) : Prop :=
  ∀ c ∈ name.toList, isSeparator c = false

instance (name : String) : Decidable (Undivided name) :=
  List.decidableBAll (fun c => isSeparator c = false) name.toList

/-- A character that has no meaning of its own in a spelling. -/
def isNamePart (c : Char) : Bool :=
  isPlain c && c ≠ '?' && c ≠ '[' && c ≠ ']'

/-- A name of one type: not empty, undivided, and without any mark. -/
structure IsSimpleName (name : String) : Prop where
  nonempty : name ≠ ""
  undivided : Undivided name
  parts : name.toList.all isNamePart = true

instance (name : String) : Decidable (IsSimpleName name) :=
  decidable_of_iff (name ≠ "" ∧ Undivided name ∧ name.toList.all isNamePart = true)
    ⟨fun ⟨nonempty, undivided, parts⟩ => ⟨nonempty, undivided, parts⟩,
      fun simple => ⟨simple.nonempty, simple.undivided, simple.parts⟩⟩

theorem Undivided.not_mem {name : String} (undivided : Undivided name) {c : Char}
    (separates : isSeparator c = true) : c ∉ name.toList := by
  intro member
  rw [undivided c member] at separates
  cases separates

theorem separator_cases {c : Char} (separates : isSeparator c = true) : c = '.' ∨ c = '$' := by
  simpa [isSeparator] using separates

/-! ### Chains of names -/

section Chains

variable {mark first name : String} {separator c : Char} {names inner : List String}

theorem nested_cons (isMark : mark.toList = [separator]) (nonempty : inner ≠ []) (first : String) :
    (nested mark (first :: inner)).toList =
      first.toList ++ separator :: (nested mark inner).toList := by
  rw [nested_toList isMark, nested_toList isMark]
  cases inner with
  | nil => exact absurd rfl nonempty
  | cons => rfl

/-- A chain ends with its last name. -/
theorem nested_concat (isMark : mark.toList = [separator]) (front : List String) (last : String) :
    ∃ before, (nested mark (front ++ [last])).toList = before ++ last.toList := by
  rw [nested_toList isMark, List.map_append]
  cases front with
  | nil => exact ⟨[], rfl⟩
  | cons =>
      rw [List.map_singleton, joinSegments_concat (by simp)]
      exact ⟨_, List.append_cons _ _ _⟩

theorem namePart_of_nested (isMark : mark.toList = [separator])
    (part : isNamePart separator = true) (simple : ∀ name ∈ names, IsSimpleName name)
    (member : c ∈ (nested mark names).toList) : isNamePart c = true := by
  rcases mem_nested isMark member with rfl | ⟨name, isName, inName⟩
  · exact part
  · exact List.all_eq_true.mp (simple name isName).parts c inName

/-- There is nothing to simplify in a chain of names. -/
theorem simplify_nested (isMark : mark.toList = [separator]) (part : isNamePart separator = true)
    (nonempty : names ≠ []) (simple : ∀ name ∈ names, IsSimpleName name) :
    simplify (nested mark names) = nested mark names := by
  have parts : ∀ c ∈ (nested mark names).toList, isNamePart c = true :=
    fun _ => namePart_of_nested isMark part simple
  refine simplify_of_plain (List.all_eq_true.mpr fun c member => ?_)
    (fun marked => absurd (parts _ (marked.subset (List.mem_singleton_self '?'))) (by decide)) ?_
  · have isPart := parts c member
    simp only [isNamePart, Bool.and_eq_true] at isPart
    exact isPart.1.1.1
  · obtain ⟨front, last, rfl⟩ := (List.eq_nil_or_concat' names).resolve_left nonempty
    obtain ⟨before, text⟩ := nested_concat isMark front last
    have isLast := simple last (by simp)
    have filled : last.toList ≠ [] := String.toList_eq_nil_iff.not.mpr isLast.nonempty
    have stops : ¬ ['.', '.'] ++ ['.'] <:+ before ++ last.toList :=
      not_suffix_append filled (isLast.undivided.not_mem rfl)
    rwa [text]

theorem element_of_not_mem (plain : ']' ∉ name.toList) :
    element name = name ∧ dimensions name = "" := by
  have kept : elementChars name.toList = name.toList := by
    rw [elementChars]
    cases reversed : name.toList.reverse with
    | nil => rw [List.reverse_eq_nil_iff.mp reversed]; rfl
    | cons c rest =>
        have other : c ≠ ']' := by
          rintro rfl
          exact plain (List.mem_reverse.mp (reversed ▸ List.mem_cons_self))
        rw [dropReversedDimensions, ← reversed, List.reverse_reverse]
        rintro rest' same
        exact other (List.cons.inj same).1
  constructor
  · rw [element, kept, String.ofList_toList]
  · rw [dimensions, kept, List.drop_length, String.ofList_nil]

/-- A primitive type has a name without separators. -/
theorem isPrimitive_eq_false (plain : ']' ∉ name.toList) (divided : c ∈ name.toList)
    (separates : isSeparator c = true) : isPrimitive name = false := by
  have undivided : ∀ primitive ∈ primitives, Undivided primitive := by decide
  rw [isPrimitive, (element_of_not_mem plain).1, Bool.eq_false_iff]
  intro listed
  exact (undivided name (List.contains_iff_mem.mp listed)).not_mem separates divided

end Chains

end TypeName

namespace Source.File

open Correlate.TypeName

section Chains

variable {file : File} {mark first outer name : String} {separator : Char} {inner : List String}

/-! ### Declarations and imports -/

/-- No type of the file has a name with a separator. -/
def TypesUndivided (file : File) : Prop :=
  ∀ type ∈ file.types.toList, type.anonymous = false → Undivided type.name

/-- No type is imported under a name with a separator. -/
def ImportsUndivided (file : File) : Prop :=
  ∀ declaration ∈ file.imports, declaration.isSingleType = true → Undivided declaration.simpleName

theorem localType?_of_divided (undivided : file.TypesUndivided) (separates : isSeparator separator = true)
    (divided : separator ∈ name.toList) : file.localType? name = none := by
  rw [localType?, Option.map_eq_none_iff, List.find?_eq_none]
  intro type member accepted
  rw [Bool.and_eq_true, Bool.not_eq_true', beq_iff_eq] at accepted
  obtain ⟨named, rfl⟩ := accepted
  exact (undivided type member named).not_mem separates divided

/-- Only the first of the names can be the one that the others are nested in. -/
theorem nestedRest?_nested (isMark : mark.toList = [separator])
    (separates : isSeparator separator = true) (nonempty : inner ≠ [])
    (undivided : Undivided first) (outer_undivided : Undivided outer) :
    nestedRest? outer (nested mark (first :: inner)) =
      if outer = first then some (nested mark inner) else none := by
  have text := nested_cons isMark nonempty first
  -- A name in front of a separator is the first name.
  have is_first {c : Char} {rest : List Char} (separates' : isSeparator c = true)
      (cut : Text.dropLeading? outer.toList (nested mark (first :: inner)).toList = some (c :: rest)) :
      outer = first ∧ String.ofList rest = nested mark inner := by
    rw [Text.dropLeading?_eq_some_iff, text] at cut
    obtain ⟨same, -, rests⟩ :=
      Text.eq_of_first_stop undivided outer_undivided separates separates' cut
    exact ⟨(String.toList_injective same).symm, by rw [← rests, String.ofList_toList]⟩
  split
  · next same =>
    subst same
    have cut : Text.dropLeading? outer.toList (nested mark (outer :: inner)).toList =
        some (separator :: (nested mark inner).toList) :=
      Text.dropLeading?_eq_some_iff.mpr text
    rw [nestedRest?, cut]
    rcases separator_cases separates with rfl | rfl <;> simp only [String.ofList_toList]
  · next different =>
    unfold nestedRest?
    split
    · next cut => exact absurd (is_first rfl cut).1 different
    · next cut => exact absurd (is_first rfl cut).1 different
    · rfl

/-- A chain is imported if its first name is. -/
theorem importedAs?_nested (isMark : mark.toList = [separator])
    (separates : isSeparator separator = true) (nonempty : inner ≠ [])
    (undivided : Undivided first) {declaration : Import}
    (imported_undivided : Undivided declaration.simpleName) :
    importedAs? (nested mark (first :: inner)) declaration =
      if declaration.simpleName = first then
        some (toBinary (declaration.name ++ "." ++ nested mark inner))
      else none := by
  have whole : declaration.simpleName ≠ nested mark (first :: inner) := by
    intro same
    refine imported_undivided.not_mem separates ?_
    rw [same, nested_cons isMark nonempty]
    exact List.mem_append_right _ List.mem_cons_self
  rw [importedAs?, if_neg whole, nestedRest?_nested isMark separates nonempty undivided
    imported_undivided]
  split <;> rfl

theorem findSome?_congr {α β : Type} {items : List α} {find find' : α → Option β}
    (same : ∀ item ∈ items, find item = find' item) : items.findSome? find = items.findSome? find' := by
  rw [← List.head?_filterMap, ← List.head?_filterMap, List.filterMap_congr same]

/-! ### Both spellings -/

variable {names : List String}

theorem importedAs?_marks (nonempty : inner ≠ []) (isType : namesType first.toList = true)
    (undivided : ∀ name ∈ first :: inner, Undivided name) {declaration : Import}
    (imported_undivided : Undivided declaration.simpleName) :
    importedAs? (nested "." (first :: inner)) declaration =
      importedAs? (nested "$" (first :: inner)) declaration := by
  have alone := undivided first List.mem_cons_self
  rw [importedAs?_nested rfl rfl nonempty alone imported_undivided,
    importedAs?_nested rfl rfl nonempty alone imported_undivided]
  split
  · next same =>
    have behind : namesType (Text.afterLast '.' declaration.name.toList) = true := by
      rw [← same, Import.simpleName, unqualified, String.toList_ofList] at isType
      exact isType
    rw [toBinary_inside behind nonempty]
    exact fun name member => (undivided name (List.mem_cons_of_mem _ member)).not_mem rfl
  · rfl

theorem qualifiedNames_marks (file : File) (isType : namesType first.toList = true)
    (clean : ∀ name ∈ first :: inner, '.' ∉ name.toList) :
    file.qualifiedNames (nested "." (first :: inner)) =
      file.qualifiedNames (nested "$" (first :: inner)) := by
  have alone : toBinary (nested "." (first :: inner)) = toBinary (nested "$" (first :: inner)) := by
    rw [← toBinary_nested isType clean, toBinary_idem]
  have qualified := toBinary_qualified isType clean
  generalize nested "." (first :: inner) = dotted at *
  generalize nested "$" (first :: inner) = binary at *
  replace qualified (qualifier : String) : toBinary s!"{qualifier}.{dotted}" =
      toBinary s!"{qualifier}.{binary}" := qualified qualifier
  simp only [qualifiedNames, List.map_append, List.map_cons, List.map_map, Function.comp_def, alone,
    qualified, apply_ite (List.map toBinary), List.map_nil]

/-- A chain with either mark is its own element and no primitive type. -/
theorem resolve_chain (file : File) (isMark : mark.toList = [separator])
    (separates : isSeparator separator = true) (nonempty : inner ≠ [])
    (simple : ∀ name ∈ first :: inner, IsSimpleName name) (undivided : file.TypesUndivided) :
    file.resolve (some (nested mark (first :: inner))) =
      distinct (match (file.imports.filter Import.isSingleType).findSome?
          (importedAs? (nested mark (first :: inner))) with
        | some binaryName => [binaryName]
        | none => file.qualifiedNames (nested mark (first :: inner))) := by
  have part : isNamePart separator = true := by
    rcases separator_cases separates with rfl | rfl <;> decide
  have divided : separator ∈ (nested mark (first :: inner)).toList := by
    rw [nested_cons isMark nonempty]
    exact List.mem_append_right _ List.mem_cons_self
  have plain : ']' ∉ (nested mark (first :: inner)).toList := fun member =>
    absurd (namePart_of_nested isMark part simple member) (by decide)
  have filled : (nested mark (first :: inner)).isEmpty = false := by
    rw [Bool.eq_false_iff]
    intro empty
    rw [String.isEmpty_iff.mp empty] at divided
    cases divided
  obtain ⟨whole, flat⟩ := element_of_not_mem plain
  rw [resolve, simplify_nested isMark part (List.cons_ne_nil _ _) simple]
  rw [whole, flat, resolveElement, filled, isPrimitive_eq_false plain divided separates,
    localType?_of_divided undivided separates divided]
  cases (file.imports.filter Import.isSingleType).findSome?
      (importedAs? (nested mark (first :: inner))) <;>
    simp only [Bool.or_self, Bool.false_eq_true, if_false, String.append_empty, List.map_id']

/-- What a chain of simple names denotes does not depend on the marks between them: in a file whose
own and imported types have undivided names, it is the same with points as with dollar signs. -/
theorem resolve_nested (file : File) (types_undivided : file.TypesUndivided)
    (imports_undivided : file.ImportsUndivided) {first : String} {inner : List String}
    (nonempty : inner ≠ []) (simple : ∀ name ∈ first :: inner, IsSimpleName name)
    (isType : namesType first.toList = true) :
    file.resolve (some (nested "." (first :: inner))) =
      file.resolve (some (nested "$" (first :: inner))) := by
  have undivided : ∀ name ∈ first :: inner, Undivided name :=
    fun name member => (simple name member).undivided
  have imported : (file.imports.filter Import.isSingleType).findSome?
        (importedAs? (nested "." (first :: inner))) =
      (file.imports.filter Import.isSingleType).findSome?
        (importedAs? (nested "$" (first :: inner))) := by
    refine findSome?_congr fun declaration member => ?_
    obtain ⟨listed, isSingle⟩ := List.mem_filter.mp member
    exact importedAs?_marks nonempty isType undivided
      (imports_undivided declaration listed isSingle)
  rw [resolve_chain file rfl rfl nonempty simple types_undivided,
    resolve_chain file rfl rfl nonempty simple types_undivided, imported,
    qualifiedNames_marks file isType fun name member => (undivided name member).not_mem rfl]

/-- An import of a type around another one, an import of a package, and a type of the file. -/
def chainFile : File :=
  { path := "A.java", package := "p"
    imports := [.parse "java.util.Map" false none, .parse "q.*" false none]
    types := #[{ position := none, name := "A", binaryName := "p.A", parent := none, anonymous := false
                 classInitializer := ⟨0⟩ }] }

theorem resolve_nested_imported :
    chainFile.TypesUndivided ∧ chainFile.ImportsUndivided ∧
      chainFile.resolve (some "Map.Entry.Key") = chainFile.resolve (some "Map$Entry$Key") ∧
      chainFile.resolve (some "Map.Entry.Key") = ["java.util.Map$Entry$Key"] ∧
      chainFile.resolve (some "A.B") = chainFile.resolve (some "A$B") ∧
      chainFile.resolve (some "A.B") = ["A$B", "p.A$B", "q.A$B"] := by
  have types_undivided : chainFile.TypesUndivided := by
    unfold TypesUndivided
    decide +kernel
  have imports_undivided : chainFile.ImportsUndivided := by
    unfold ImportsUndivided
    decide +kernel
  have same {first : String} {inner : List String} :=
    @resolve_nested chainFile types_undivided imports_undivided first inner
  refine ⟨types_undivided, imports_undivided, ?_, by decide +kernel, ?_, by decide +kernel⟩
  · exact @same "Map" ["Entry", "Key"] nofun (by decide +kernel) (by decide +kernel)
  · exact @same "A" ["B"] nofun (by decide +kernel) (by decide +kernel)

-- Two marks in one chain are no obstacle to an import of the first type either.
example : chainFile.resolve (some "Map.Entry$Key") = ["java.util.Map$Entry$Key"] := by decide +kernel

end Chains

end Source.File

end Correlate
