/-
Module: Correlate.Proofs.Source.Resolution
Purpose: What a source type may denote has its simple name and its array dimensions.
Main exports: File.Assembled.lastPiece_resolve, File.Assembled.resolve_agrees, File.resolve_array
-/
import Correlate.Matching.Method
import Correlate.Proofs.Grouping
import Correlate.Proofs.Source.BinaryNames
import Correlate.Proofs.Source.Candidates

namespace Correlate.Source

/-!
However a source type is resolved, by a declaration of the file, by an import, or by a package that
is put in front, the last piece of its name is kept, and this is what simple names are compared by.
The array dimensions are split off before and put back after, so they take no part in any of it.
-/

open Correlate.TypeName

namespace File

variable {file : File} {name candidate : String}

/-! ### The last piece of what is denoted -/

theorem lastPiece_binaryNameOf (file : File) (name : String) (parent : Option (Handle .type)) :
    lastPiece (file.binaryNameOf name parent).toList = lastPiece name.toList := by
  cases parent with
  | some outer => exact lastPiece_nested _ name
  | none =>
      rw [binaryNameOf]
      split
      · rfl
      · exact lastPiece_qualified _ name

/-- A type keeps its name at the end of its binary name, whatever it is nested in. -/
theorem Assembled.lastPiece_binaryName (assembled : file.Assembled) {naming : Naming}
    (member : naming ∈ file.namings) :
    lastPiece naming.binaryName.toList = lastPiece naming.name.toList := by
  rw [assembled.binaryName_eq naming member]
  exact lastPiece_binaryNameOf file naming.name naming.parent

theorem Assembled.lastPiece_localType? (assembled : file.Assembled)
    (found : file.localType? name = some candidate) :
    lastPiece candidate.toList = lastPiece name.toList := by
  obtain ⟨type, isType, rfl⟩ := Option.map_eq_some_iff.mp found
  have named : type.name = name := by
    have accepted := List.find?_some isType
    rw [Bool.and_eq_true, beq_iff_eq] at accepted
    exact accepted.2
  rw [← named]
  exact assembled.lastPiece_binaryName (List.mem_map_of_mem (List.mem_of_find?_eq_some isType))

theorem lastPiece_nestedRest? {outer rest : String} (nested : nestedRest? outer name = some rest) :
    lastPiece rest.toList = lastPiece name.toList := by
  unfold nestedRest? at nested
  split at nested
  · next cut =>
    obtain rfl := Option.some.inj nested
    rw [Text.dropLeading?_eq_some_iff.mp cut, lastPiece_append_separator rfl, String.toList_ofList]
  · next cut =>
    obtain rfl := Option.some.inj nested
    rw [Text.dropLeading?_eq_some_iff.mp cut, lastPiece_append_separator rfl, String.toList_ofList]
  · cases nested

theorem lastPiece_importedAs? {declaration : Import}
    (found : importedAs? name declaration = some candidate) :
    lastPiece candidate.toList = lastPiece name.toList := by
  unfold importedAs? at found
  split at found
  · next simple =>
    obtain rfl := Option.some.inj found
    rw [lastPiece_toBinary, ← simple, Import.simpleName, unqualified, String.toList_ofList,
      lastPiece_afterLast]
  · obtain ⟨rest, nested, rfl⟩ := Option.map_eq_some_iff.mp found
    rw [lastPiece_toBinary, lastPiece_qualified, lastPiece_nestedRest? nested]

theorem lastPiece_qualifiedNames (member : candidate ∈ file.qualifiedNames name) :
    lastPiece candidate.toList = lastPiece name.toList := by
  obtain ⟨written, isWritten, rfl⟩ := List.mem_map.mp member
  rw [lastPiece_toBinary]
  rcases List.mem_append.mp isWritten with own | imported
  · rcases List.mem_cons.mp own with rfl | inPackage
    · rfl
    · split at inPackage
      · cases inPackage
      · rw [List.mem_singleton.mp inPackage]
        exact lastPiece_qualified _ name
  · obtain ⟨declaration, -, rfl⟩ := List.mem_map.mp imported
    exact lastPiece_qualified _ name

theorem Assembled.lastPiece_resolveElement (assembled : file.Assembled)
    (member : candidate ∈ file.resolveElement name) :
    lastPiece candidate.toList = lastPiece name.toList := by
  unfold resolveElement at member
  split at member
  · rw [List.mem_singleton.mp member]
  · split at member
    · next found =>
      rw [List.mem_singleton.mp member]
      exact assembled.lastPiece_localType? found
    · split at member
      · next found =>
        obtain ⟨declaration, -, imported⟩ := List.exists_of_findSome?_eq_some found
        rw [List.mem_singleton.mp member]
        exact lastPiece_importedAs? imported
      · exact lastPiece_qualifiedNames member

/-- Whatever a spelling may denote, its last piece is that of the spelling. -/
theorem Assembled.lastPiece_resolve (assembled : file.Assembled) {spelling : String}
    (member : candidate ∈ file.resolve (some spelling)) :
    lastPiece candidate.toList = lastPiece (simplify spelling).toList := by
  obtain ⟨_, -, parts⟩ := dimensions_toList (simplify spelling)
  obtain ⟨binaryName, isElement, rfl⟩ := List.mem_map.mp (mem_distinct.mp member)
  rw [parts, String.toList_append, lastPiece_append_dimensions, lastPiece_append_dimensions,
    assembled.lastPiece_resolveElement isElement]

/-! ### Agreement with simple names -/

/-- Unless a separator stands at an end or beside another one, the last piece is not empty. -/
theorem lastPiece_simplify_ne_nil {spelling : String}
    (unbroken : Unbroken (element (simplify spelling))) :
    lastPiece (simplify spelling).toList ≠ [] := by
  obtain ⟨_, -, parts⟩ := dimensions_toList (simplify spelling)
  rw [parts, lastPiece_append_dimensions]
  refine List.append_ne_nil_of_left_ne_nil (fun empty => unbroken ?_) _
  rw [← empty]
  exact lastPiece_mem_pieces _

theorem Assembled.sameInnermost_of_mem_resolve (assembled : file.Assembled) {spelling : String}
    (unbroken : Unbroken (element (simplify spelling)))
    (member : candidate ∈ file.resolve (some spelling)) :
    sameInnermost spelling candidate = true := by
  have left := lastPiece_simplify_ne_nil unbroken
  have same := assembled.lastPiece_resolve member
  have candidate_left : lastPiece candidate.toList ≠ [] := by rwa [same]
  have names : innermost candidate = innermost (simplify spelling) := by
    rw [innermost, innermost, innermostChars_eq left, innermostChars_eq candidate_left, same]
  rw [sameInnermost, innermostOfSource, names, beq_self_eq_true]

theorem Assembled.paramsAgree_of_mem_tuples (assembled : file.Assembled)
    {paramTypes : List (Option String)} {params : List String}
    (unbroken : ∀ spelling, some spelling ∈ paramTypes → Unbroken (element (simplify spelling)))
    (chosen : params ∈ tuples (paramTypes.map file.resolve)) :
    params.length = paramTypes.length ∧ Matching.paramsAgree paramTypes params = true := by
  have denoted := List.forall₂_map_right_iff.mp (mem_tuples.mp chosen)
  refine ⟨denoted.length_eq, List.all_eq_true.mpr ?_⟩
  rintro ⟨spelling, param⟩ member
  cases spelling with
  | none => rfl
  | some spelling =>
      have candidate := (List.forall₂_iff_zip.mp denoted.flip).2 member
      exact assembled.sameInnermost_of_mem_resolve
        (unbroken spelling (List.of_mem_zip member).1) candidate

/-- Whatever a type may denote has its simple name, so the parameters of every method that a
signature may denote agree with those of the signature. -/
theorem Assembled.resolve_agrees (assembled : file.Assembled) :
    (∀ spelling, Unbroken (element (simplify spelling)) →
      ∀ candidate ∈ file.resolve (some spelling), sameInnermost spelling candidate = true) ∧
    ∀ (returnType : Option String) (paramTypes : List (Option String)),
      (∀ spelling, some spelling ∈ paramTypes → Unbroken (element (simplify spelling))) →
      (∀ choice ∈ file.signatureChoices returnType paramTypes,
        choice.2.length = paramTypes.length ∧
          Matching.paramsAgree paramTypes choice.2 = true) ∧
      ∀ (owner name : String),
        ∀ id ∈ (file.methodCandidates owner returnType name paramTypes).ids,
          ∃ choice ∈ file.signatureChoices returnType paramTypes,
            id = ({ name, returnType := choice.1, params := choice.2 } :
              Compiled.Signature).idIn owner := by
  refine ⟨fun _ unbroken _ => assembled.sameInnermost_of_mem_resolve unbroken, ?_⟩
  intro returnType paramTypes unbroken
  refine ⟨fun choice isChoice => ?_, fun owner name id => exists_choice_of_mem⟩
  exact assembled.paramsAgree_of_mem_tuples unbroken (List.mem_product.mp isChoice).2

/-- A nested type, and imports of a type and of a package. -/
def importingSteps : List Step :=
  [.type "Outer" none none, .type "Inner" (some ⟨0⟩) none,
    .importName "java.util.Map" false none, .importName "q.*" false none]

def importingFile : File :=
  ({ path := "Outer.java", package := "p" } : File).performAll importingSteps

theorem resolve_agrees_importing :
    importingFile.Assembled ∧
      sameInnermost "Map.Entry<K, V>..." "java.util.Map$Entry[]" = true ∧
      sameInnermost "Inner" "p.Outer$Inner" = true ∧ sameInnermost "X?" "q.X" = true ∧
      importingFile.signatureChoices none [some "Inner", none, some "X"] =
        [("void", ["p.Outer$Inner", "void", "X"]), ("void", ["p.Outer$Inner", "void", "p.X"]),
          ("void", ["p.Outer$Inner", "void", "q.X"])] ∧
      Matching.paramsAgree [some "Inner", none, some "X"] ["p.Outer$Inner", "void", "q.X"] =
        true := by
  have admitted : ({ path := "Outer.java", package := "p" } : File).Admits importingSteps := by
    refine ⟨nofun, ?_, trivial, trivial, trivial⟩
    rintro _ ⟨⟩
    exact Nat.zero_lt_one
  have assembled : importingFile.Assembled :=
    .of_reachable ((Reachable.empty "Outer.java" "p").performAll admitted)
  obtain ⟨simple, signatures⟩ := assembled.resolve_agrees
  have choices : importingFile.signatureChoices none [some "Inner", none, some "X"] =
      [("void", ["p.Outer$Inner", "void", "X"]), ("void", ["p.Outer$Inner", "void", "p.X"]),
        ("void", ["p.Outer$Inner", "void", "q.X"])] := by decide +kernel
  have unbroken : ∀ spelling, some spelling ∈ [some "Inner", none, some "X"] →
      Unbroken (element (simplify spelling)) := by
    intro spelling member
    simp only [List.mem_cons, Option.some.injEq, reduceCtorEq, List.not_mem_nil, false_or,
      or_false] at member
    rcases member with rfl | rfl <;> decide +kernel
  refine ⟨assembled, ?_, ?_, ?_, choices, ?_⟩
  · exact simple _ (by decide +kernel) _ (by decide +kernel)
  · exact simple _ (by decide +kernel) _ (by decide +kernel)
  · exact simple _ (by decide +kernel) _ (by decide +kernel)
  · have isChoice : ("void", ["p.Outer$Inner", "void", "q.X"]) ∈
        importingFile.signatureChoices none [some "Inner", none, some "X"] := by
      rw [choices]
      exact List.mem_cons_of_mem _ (List.mem_cons_of_mem _ (List.mem_singleton_self _))
    exact ((signatures none _ unbroken).1 _ isChoice).2

-- Without a name after the last separator, binary form changes where the simple name is read from.
example : importingFile.resolve (some "A.$") = ["A$$", "p.A$$", "q.A$$"] ∧
    sameInnermost "A.$" "A$$" = false := by
  decide +kernel

/-! ### Array dimensions -/

/-- What an array may denote are the arrays of what its element may denote. -/
theorem resolve_of_simplify_append_array {array spelling : String}
    (simplified : simplify array = simplify spelling ++ "[]") :
    file.resolve (some array) = (file.resolve (some spelling)).map (· ++ "[]") := by
  have injective : Function.Injective fun name : String => name ++ "[]" := by
    intro name other same
    have texts := congrArg String.toList same
    rw [String.toList_append, String.toList_append, List.append_cancel_right_eq] at texts
    exact String.toList_injective texts
  rw [resolve, resolve, simplified, element_append_array, dimensions_append_array]
  rw [← distinct_map injective, List.map_map]
  simp only [Function.comp_def, String.append_assoc]

/-- An ellipsis is an array dimension, and a dimension at the end of a spelling is one at the end of
whatever the spelling may denote. -/
theorem resolve_array (file : File) (spelling : String) :
    file.resolve (some (spelling ++ "...")) = file.resolve (some (spelling ++ "[]")) ∧
      (openBrackets 0 spelling.toList = 0 → ¬ ['?'] <:+ outsideBrackets 0 spelling.toList →
        ¬ ['.', '.', '.'] <:+ outsideBrackets 0 spelling.toList →
        file.resolve (some (spelling ++ "[]")) =
          (file.resolve (some spelling)).map (· ++ "[]")) := by
  constructor
  · rw [resolve, resolve, simplify_append_ellipsis]
  · exact fun closed unmarked single =>
      resolve_of_simplify_append_array (simplify_append_array closed unmarked single)

theorem resolve_array_importing :
    openBrackets 0 "X<List<T>>[]".toList = 0 ∧
      ¬ ['?'] <:+ outsideBrackets 0 "X<List<T>>[]".toList ∧
      ¬ ['.', '.', '.'] <:+ outsideBrackets 0 "X<List<T>>[]".toList ∧
      importingFile.resolve (some "X<List<T>>[]...") =
        (importingFile.resolve (some "X<List<T>>[]")).map (· ++ "[]") ∧
      importingFile.resolve (some "X<List<T>>[]...") = ["X[][]", "p.X[][]", "q.X[][]"] := by
  have closed : openBrackets 0 "X<List<T>>[]".toList = 0 := by decide
  have unmarked : ¬ ['?'] <:+ outsideBrackets 0 "X<List<T>>[]".toList := by decide +kernel
  have single : ¬ ['.', '.', '.'] <:+ outsideBrackets 0 "X<List<T>>[]".toList := by decide +kernel
  obtain ⟨ellipsis, array⟩ := importingFile.resolve_array "X<List<T>>[]"
  have appended := ellipsis.trans (array closed unmarked single)
  exact ⟨closed, unmarked, single, appended, appended.trans (by decide +kernel)⟩

end File

end Correlate.Source
