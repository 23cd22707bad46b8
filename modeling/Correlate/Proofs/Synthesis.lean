/-
Module: Correlate.Proofs.Synthesis
Purpose: What is left of a compiled type, once it has the detail of a source spelling, when the detail
  is taken off again.
Main exports: IsErased, Requalified, simplifyChars_append_left, simplify_synthesize_of_suffix,
  simplify_synthesize_iff, map_simplify_iff, synthesized_simplified
-/
import Mathlib.Data.List.Infix
import Correlate.Compiled.Script
import Correlate.Matching.Run
import Correlate.Proofs.Spelling
import Correlate.Report.Element
import Correlate.Source.Script

namespace Correlate

/-!
A report shows a parameter with its compiled qualifier and its source detail.  To choose the
qualifier, only what follows the last point of the source spelling is compared, but the whole spelling
is put behind it.  So the compiled type comes back unless the spelling has a qualifier of its own and
what follows that ends the compiled name; then two qualifiers stand one behind the other.
-/

namespace TypeName

open Text

/-- A compiled type has no angle brackets, blanks, question marks or ellipses. -/
structure IsErased (name : String) : Prop where
  plain : name.toList.all isPlain = true
  unmarked : '?' ∉ name.toList
  single : ¬ ['.', '.', '.'] <:+: name.toList

/-- The compiled name ends with what follows the last point of a spelling that has one. -/
structure Requalified (spelling name : String) : Prop where
  qualified : '.' ∈ (simplify spelling).toList
  named : unqualified (simplify spelling) ≠ ""
  ends : (unqualified (simplify spelling)).toList <:+ name.toList

instance (name : String) : Decidable (IsErased name) :=
  decidable_of_iff (name.toList.all isPlain = true ∧ '?' ∉ name.toList ∧
      ¬ ['.', '.', '.'] <:+: name.toList)
    ⟨fun ⟨plain, unmarked, single⟩ => ⟨plain, unmarked, single⟩,
      fun ⟨plain, unmarked, single⟩ => ⟨plain, unmarked, single⟩⟩

instance (spelling name : String) : Decidable (Requalified spelling name) :=
  decidable_of_iff ('.' ∈ (simplify spelling).toList ∧ unqualified (simplify spelling) ≠ "" ∧
      (unqualified (simplify spelling)).toList <:+ name.toList)
    ⟨fun ⟨qualified, named, ends⟩ => ⟨qualified, named, ends⟩,
      fun ⟨qualified, named, ends⟩ => ⟨qualified, named, ends⟩⟩

section Simplifying

variable {front text : List Char} {name : String}

theorem openBrackets_of_plain (plain : front.all isPlain = true) (depth : Nat) :
    openBrackets depth front = depth := by
  induction front with
  | nil => rfl
  | cons c rest inductionHypothesis =>
      rw [List.all_cons, Bool.and_eq_true] at plain
      obtain ⟨noOpening, noClosing⟩ : c ≠ '<' ∧ c ≠ '>' := by
        have plain := plain.1
        simp only [isPlain, Bool.and_eq_true, decide_eq_true_eq] at plain
        exact plain.1
      rw [openBrackets, if_neg noOpening, if_neg noClosing, inductionHypothesis plain.2]

theorem outsideBrackets_append_left (plain : front.all isPlain = true) :
    outsideBrackets 0 (front ++ text) = front ++ outsideBrackets 0 text := by
  rw [outsideBrackets_append, outsideBrackets_of_plain plain, openBrackets_of_plain plain]

theorem ellipsisToArray_append_left (long : ¬ text <:+ ['.', '.', '.'] ∨ text = ['.', '.', '.']) :
    ellipsisToArray (front ++ text) = front ++ ellipsisToArray text := by
  by_cases ending : ['.', '.', '.'] <:+ text
  · obtain ⟨rest, rfl⟩ := ending
    rw [← List.append_assoc, ellipsisToArray_append, ellipsisToArray_append, List.append_assoc]
  · rw [ellipsisToArray_of_not_suffix ending, ellipsisToArray_of_not_suffix]
    intro ends
    rcases List.suffix_or_suffix_of_suffix ends (List.suffix_append front text) with within | short
    · exact ending within
    · rcases long with long | rfl
      · exact long short
      · exact ending List.suffix_rfl

theorem dropQuestionMarks_append_left (some : dropQuestionMarks text ≠ []) :
    dropQuestionMarks (front ++ text) = front ++ dropQuestionMarks text := by
  rw [dropQuestionMarks, ne_eq, List.reverse_eq_nil_iff, ← List.isEmpty_iff] at some
  rw [dropQuestionMarks, List.reverse_append, List.dropWhile_append, if_neg some,
    List.reverse_append, List.reverse_reverse, dropQuestionMarks]

/-- Nothing follows the last of points alone. -/
theorem afterLast_of_points (points : text <:+ ['.', '.', '.']) : afterLast '.' text = [] := by
  apply List.rtakeWhile_eq_nil_iff.mpr
  intro nonempty
  have isPoint : text.getLast nonempty ∈ ['.', '.', '.'] :=
    points.subset (List.getLast_mem nonempty)
  have isPoint : text.getLast nonempty = '.' := by simpa using isPoint
  simp [isPoint]

/-- A qualifier in front of a spelling stays as it is, if simplifying leaves a name after the last
point of the spelling.  A nullability mark of the qualifier would otherwise come to its end. -/
theorem simplifyChars_append_left (plain : front.all isPlain = true)
    (named : afterLast '.' (simplifyChars text) ≠ []) :
    simplifyChars (front ++ text) = front ++ simplifyChars text := by
  have some : simplifyChars text ≠ [] := by
    intro none
    rw [none] at named
    exact named rfl
  rw [simplifyChars] at some named
  rw [simplifyChars, outsideBrackets_append_left plain, ellipsisToArray_append_left,
    dropQuestionMarks_append_left some, simplifyChars]
  by_cases ending : ['.', '.', '.'] <:+ outsideBrackets 0 text
  · -- An ellipsis is all of the spelling or the end of a longer one.
    by_cases points : outsideBrackets 0 text <:+ ['.', '.', '.']
    · exact .inr (points.eq_of_length (le_antisymm points.length_le ending.length_le))
    · exact .inl points
  · -- Fewer points than an ellipsis have no name after them, so there is more than points.
    refine .inl fun points => named ?_
    have unmarked : ¬ ['?'] <:+ outsideBrackets 0 text := by
      intro marked
      have isPoint := (marked.trans points).subset (List.mem_singleton_self '?')
      exact absurd isPoint (by decide)
    rw [ellipsisToArray_of_not_suffix ending, dropQuestionMarks_of_not_suffix unmarked]
    exact afterLast_of_points points

theorem IsErased.simplify_eq (erased : IsErased name) : simplify name = name :=
  simplify_of_plain erased.plain
    (fun marked => erased.unmarked (marked.subset (List.mem_singleton_self '?')))
    fun ending => erased.single ending.isInfix

end Simplifying

section Synthesis

variable {spelling name : String} {qualifier : List Char}

theorem unqualified_eq_iff : unqualified name = name ↔ '.' ∉ name.toList := by
  constructor
  · intro same member
    obtain ⟨front, back, cut, clean⟩ := exists_last_separator member
    have chars := congrArg String.toList same
    rw [unqualified, String.toList_ofList, cut, afterLast_append clean] at chars
    have lengths := congrArg List.length chars
    rw [List.length_append, List.length_cons] at lengths
    omega
  · intro clean
    rw [unqualified, afterLast_of_not_mem clean, String.ofList_toList]

theorem synthesize_of_suffix (named : unqualified (simplify spelling) ≠ "")
    (cut : name.toList = qualifier ++ (unqualified (simplify spelling)).toList) :
    synthesize spelling name = .ofList qualifier ++ spelling := by
  have nonempty : (unqualified (simplify spelling)).toList.isEmpty = false := by
    rw [Bool.eq_false_iff, ne_eq, List.isEmpty_iff, String.toList_eq_nil_iff]
    exact named
  -- Its equation takes long to derive, so the definition itself is put in.
  delta synthesize
  simp only [dropEnding?_eq_some_iff.mpr cut, nonempty, Bool.false_eq_true, if_false]

theorem synthesize_of_not_suffix (other : unqualified (simplify spelling) = "" ∨
    ¬ (unqualified (simplify spelling)).toList <:+ name.toList) : synthesize spelling name = name := by
  delta synthesize
  dsimp only
  split
  · next qualifier cut =>
    rcases other with unnamed | other
    · exact if_pos (by rw [unnamed]; rfl)
    · exact absurd ⟨qualifier, (dropEnding?_eq_some_iff.mp cut).symm⟩ other
  · rfl

/-- What the two spellings make together is the compiled qualifier before the source spelling, without
the detail of that. -/
theorem simplify_synthesize_of_suffix (plain : qualifier.all isPlain = true)
    (named : unqualified (simplify spelling) ≠ "")
    (cut : name.toList = qualifier ++ (unqualified (simplify spelling)).toList) :
    simplify (synthesize spelling name) = .ofList qualifier ++ simplify spelling := by
  have some : afterLast '.' (simplifyChars spelling.toList) ≠ [] := by
    intro none
    apply named
    rw [unqualified, simplify, String.toList_ofList, none]
  rw [synthesize_of_suffix named cut, simplify, String.toList_append, String.toList_ofList,
    simplifyChars_append_left plain some, String.ofList_append, simplify]

theorem IsErased.plain_qualifier (erased : IsErased name) {simple : List Char}
    (cut : name.toList = qualifier ++ simple) : qualifier.all isPlain = true := by
  have plain := erased.plain
  rw [cut, List.all_append, Bool.and_eq_true] at plain
  exact plain.1

/-- Simplifying gives the compiled type back exactly if the spelling brings no qualifier with it. -/
theorem simplify_synthesize_iff (erased : IsErased name) :
    simplify (synthesize spelling name) = name ↔ ¬ Requalified spelling name := by
  by_cases other : unqualified (simplify spelling) = "" ∨
      ¬ (unqualified (simplify spelling)).toList <:+ name.toList
  · rw [synthesize_of_not_suffix other, erased.simplify_eq]
    refine iff_of_true rfl fun requalified => ?_
    rcases other with unnamed | other
    · exact requalified.named unnamed
    · exact other requalified.ends
  · rw [not_or, not_not] at other
    obtain ⟨named, qualifier, cut⟩ := other
    have glued := simplify_synthesize_of_suffix (erased.plain_qualifier cut.symm) named cut.symm
    have parts : name = .ofList qualifier ++ unqualified (simplify spelling) := by
      apply String.toList_injective
      rw [String.toList_append, String.toList_ofList, cut]
    have same : simplify (synthesize spelling name) = name ↔
        unqualified (simplify spelling) = simplify spelling := by
      rw [glued]
      conv_lhs => rw [parts]
      rw [String.append_right_inj, eq_comm]
    rw [same, unqualified_eq_iff, not_iff_not]
    exact ⟨fun qualified => ⟨qualified, named, qualifier, cut⟩, Requalified.qualified⟩

end Synthesis

end TypeName

namespace ReportedElement

open Correlate.TypeName

/-- Simplifying gives every compiled type of a list back exactly if none of the spellings that are
known brings a qualifier with it. -/
theorem map_simplify_iff {spellings : List (Option String)} {types : List String}
    (short : types.length ≤ spellings.length) (erased : ∀ type ∈ types, IsErased type) :
    (List.zipWith paramType spellings types).map simplify = types ↔
      ∀ pair ∈ spellings.zip types, ∀ spelling ∈ pair.1, ¬ Requalified spelling pair.2 := by
  induction types generalizing spellings with
  | nil => simp
  | cons type types inductionHypothesis =>
      cases spellings with
      | nil => simp at short
      | cons spelling spellings =>
          rw [List.forall_mem_cons] at erased
          have rest := inductionHypothesis (Nat.le_of_succ_le_succ short) erased.2
          rw [List.zipWith_cons_cons, List.map_cons, List.cons.injEq, rest]
          cases spelling with
          | none => simp [paramType, erased.1.simplify_eq]
          | some spelling =>
              rw [paramType, simplify_synthesize_iff erased.1]
              simp

/-- The last parameters of a compiled method, one for each source parameter at most. -/
def declaredParams (signature : Compiled.Signature) (spellings : List (Option String)) : List String :=
  signature.params.drop (signature.params.length - spellings.length)

theorem length_declaredParams_le (signature : Compiled.Signature) (spellings : List (Option String)) :
    (declaredParams signature spellings).length ≤ spellings.length := by
  rw [declaredParams, List.length_drop]
  omega

section Report

variable {pool : Compiled.Pool} {file : Source.File} {method : Source.Handle .method}
  {compiled : Compiled.Handle .method}

theorem paramTypes_ofElement (linked : file.linkedMethod? method = some compiled) :
    (ofElement pool true file method).paramTypes =
      List.zipWith paramType (file.paramTypes method)
        (declaredParams (pool.methodAt compiled).signature (file.paramTypes method)) := by
  change paramTypesIn pool file method = _
  simp only [paramTypesIn, Source.Handle.ref, linked, declaredParams]

end Report

/-- Simplifying a compiled type with source detail gives the compiled type back exactly if the
spelling brings no qualifier with it, and else gives the compiled qualifier before the qualified
spelling.  The reported parameter types of a method are the compiled ones with nothing but detail
exactly if that holds of every parameter whose spelling is known. -/
theorem synthesized_simplified (spelling name : String) (erased : IsErased name) :
    (simplify (synthesize spelling name) = name ↔ ¬ Requalified spelling name) ∧
      (Requalified spelling name → ∃ qualifier,
        name = qualifier ++ unqualified (simplify spelling) ∧
          simplify (synthesize spelling name) = qualifier ++ simplify spelling) ∧
      ∀ (pool : Compiled.Pool) (file : Source.File) (method : Source.Handle .method)
        (compiled : Compiled.Handle .method), file.linkedMethod? method = some compiled →
        (∀ type ∈ (pool.methodAt compiled).signature.params, IsErased type) →
        let types := declaredParams (pool.methodAt compiled).signature (file.paramTypes method)
        ((ofElement pool true file method).paramTypes.map simplify = types ↔
          ∀ pair ∈ (file.paramTypes method).zip types, ∀ written ∈ pair.1,
            ¬ Requalified written pair.2) := by
  refine ⟨simplify_synthesize_iff erased, ?_, ?_⟩
  · rintro ⟨-, named, qualifier, cut⟩
    refine ⟨.ofList qualifier, ?_, ?_⟩
    · apply String.toList_injective
      rw [String.toList_append, String.toList_ofList, cut]
    · exact simplify_synthesize_of_suffix (erased.plain_qualifier cut.symm) named cut.symm
  · intro pool file method compiled linked erased types
    rw [paramTypes_ofElement linked]
    exact map_simplify_iff (length_declaredParams_le _ _) fun type member =>
      erased type (List.mem_of_mem_drop member)

/-- A method whose first parameter is a captured value. -/
def capturePool : Compiled.Pool :=
  (({} : Compiled.Builder).performAll
    [.type "p.A", .method ⟨0⟩ { name := "f", returnType := "void"
                                params := ["int", "java.util.List", "java.util.Map$Entry[]"] } {}]).1
    |>.finish.pool

/-- The source of the method, in which types have arguments and one has an ellipsis. -/
def detailFile : Source.File :=
  ({ path := "p/A.src.json", package := "p" } : Source.File).performAll
    [.type "A" none none, .method ⟨0⟩ "f" none false none, .param ⟨1⟩ "a" (some "List<String>") none,
     .param ⟨1⟩ "b" (some "Entry<K, V>...") none]

def detailResult : Source.File :=
  (Matching.run { pool := capturePool } [detailFile]).files.headD default

theorem synthesized_simplified_detail : IsErased "java.util.Map$Entry" ∧
    simplify (synthesize "Entry<K, V>" "java.util.Map$Entry") = "java.util.Map$Entry" ∧
      (ofElement capturePool true detailResult (⟨1⟩ : Source.Handle .method)).paramTypes =
        ["java.util.List<String>", "java.util.Map$Entry<K, V>..."] ∧
      (ofElement capturePool true detailResult (⟨1⟩ : Source.Handle .method)).paramTypes.map
          simplify = ["java.util.List", "java.util.Map$Entry[]"] := by
  have erased : IsErased "java.util.Map$Entry" := by decide +kernel
  obtain ⟨single, -, reports⟩ := synthesized_simplified "Entry<K, V>" "java.util.Map$Entry" erased
  refine ⟨erased, single.mpr (by decide +kernel), by decide +kernel, ?_⟩
  have detail := reports capturePool detailResult ⟨1⟩ ⟨0⟩ (by decide +kernel) (by decide +kernel)
  exact (detail.mpr (by decide +kernel)).trans (by decide +kernel)

/-- The spelling of a nested type has its qualifier twice. -/
theorem synthesized_twice :
    openBrackets 0 "Map.Entry<K, V>".toList = 0 ∧ IsErased "java.util.Map$Entry" ∧
      synthesize "Map.Entry<K, V>" "java.util.Map$Entry" = "java.util.Map$Map.Entry<K, V>" ∧
      simplify (synthesize "Map.Entry<K, V>" "java.util.Map$Entry") ≠ "java.util.Map$Entry" := by
  decide +kernel

end ReportedElement

end Correlate
