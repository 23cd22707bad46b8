/-
Module: Correlate.Proofs.Simplification
Purpose: How far simplifying a type puts its spelling into a normal form.  Marks behind an ellipsis
  are the one thing that takes a second turn.
Main exports: IsSimplified, simplify_eq_self_iff, MarkedEllipsis, simplify_normalizes
-/
import Correlate.Proofs.Spelling

namespace Correlate.TypeName

open Text

/-!
The ellipsis is rewritten before the question marks are taken off.  So marks behind an ellipsis hide
it from the first turn, which then leaves it at the end.  A spelling is simplified exactly if
simplifying does not change it, and every result of a second turn is.
-/

section Characters

variable {text : List Char}

/-! ### Stages of simplifying -/

theorem isPlain_of_mem_outsideBrackets {depth : Nat} {c : Char}
    (member : c ∈ outsideBrackets depth text) : isPlain c = true := by
  fun_induction outsideBrackets depth text with
  | case1 => cases member
  | case2 depth rest inductionHypothesis => exact inductionHypothesis member
  | case3 depth rest _ inductionHypothesis => exact inductionHypothesis member
  | case4 depth first rest noOpening noClosing outside inductionHypothesis =>
      rcases List.mem_cons.mp member with rfl | later
      · obtain ⟨_, noBlank⟩ : depth = 0 ∧ isBlank c = false := by simpa using outside
        simp [isPlain, noOpening, noClosing, noBlank]
      · exact inductionHypothesis later
  | case5 depth first rest _ _ _ inductionHypothesis => exact inductionHypothesis member

theorem mem_of_mem_dropQuestionMarks {c : Char} (member : c ∈ dropQuestionMarks text) : c ∈ text :=
  (List.rdropWhile_prefix _ text).subset member

theorem dropQuestionMarks_append_marks (unmarked : ¬ ['?'] <:+ text) (count : Nat) :
    dropQuestionMarks (text ++ List.replicate count '?') = text := by
  have marks : ∀ c ∈ List.replicate count '?', decide (c = '?') = true :=
    fun c member => decide_eq_true (List.eq_of_mem_replicate member)
  rw [dropQuestionMarks, List.reverse_append, List.reverse_replicate,
    List.dropWhile_append_of_pos marks]
  exact dropQuestionMarks_of_not_suffix unmarked

theorem not_suffix_dropQuestionMarks (text : List Char) : ¬ ['?'] <:+ dropQuestionMarks text := by
  rintro ⟨rest, cut⟩
  have nonempty : dropQuestionMarks text ≠ [] := cut ▸ List.append_ne_nil_of_right_ne_nil _ nofun
  have isMark : (dropQuestionMarks text).getLast nonempty = '?' := by
    simp only [← cut, List.getLast_concat]
  exact List.rdropWhile_last_not (fun c => decide (c = '?')) text nonempty (decide_eq_true isMark)

/-- The marks that are taken off. -/
theorem exists_questionMarks (text : List Char) :
    ∃ count, text = dropQuestionMarks text ++ List.replicate count '?' := by
  have marks (c : Char) (member : c ∈ text.rtakeWhile fun c => decide (c = '?')) : c = '?' :=
    of_decide_eq_true (List.mem_rtakeWhile_imp (p := fun c => decide (c = '?')) member)
  refine ⟨(text.rtakeWhile fun c => decide (c = '?')).length, ?_⟩
  rw [← List.eq_replicate_of_mem marks]
  exact List.rdropWhile_append_rtakeWhile.symm

theorem all_isPlain_simplifyChars (text : List Char) : (simplifyChars text).all isPlain = true := by
  have kept (c : Char) : c ∈ outsideBrackets 0 text → isPlain c = true :=
    isPlain_of_mem_outsideBrackets
  have array : ∀ c ∈ ['[', ']'], isPlain c = true :=
    List.forall_mem_cons.mpr ⟨rfl, List.forall_mem_singleton.mpr rfl⟩
  rw [List.all_eq_true]
  intro c member
  have member := mem_of_mem_dropQuestionMarks member
  by_cases ending : ['.', '.', '.'] <:+ outsideBrackets 0 text
  · obtain ⟨element, cut⟩ := ending
    rw [← cut, ellipsisToArray_append] at member
    rcases List.mem_append.mp member with inElement | inArray
    · exact kept c (cut ▸ List.mem_append_left _ inElement)
    · exact array c inArray
  · rw [ellipsisToArray_of_not_suffix ending] at member
    exact kept c member

/-- An ellipsis is left at the end exactly if there were marks behind it. -/
theorem suffix_simplifyChars_iff :
    ['.', '.', '.'] <:+ simplifyChars text ↔ ∃ element count,
      outsideBrackets 0 text = element ++ ['.', '.', '.'] ++ List.replicate (count + 1) '?' := by
  constructor
  · rintro ⟨element, left⟩
    have hidden : ¬ ['.', '.', '.'] <:+ outsideBrackets 0 text := by
      rintro ⟨front, cut⟩
      rw [simplifyChars, ← cut, ellipsisToArray_append, dropQuestionMarks_append_array] at left
      exact not_suffix_append_array front ['.', '.'] (by decide) ⟨element, left⟩
    obtain ⟨count, marks⟩ := exists_questionMarks (outsideBrackets 0 text)
    rw [simplifyChars, ellipsisToArray_of_not_suffix hidden] at left
    rw [← left] at marks
    cases count with
    | zero => exact absurd ⟨element, (marks.trans (List.append_nil _)).symm⟩ hidden
    | succ count => exact ⟨element, count, marks⟩
  · rintro ⟨element, count, marks⟩
    have hidden : ¬ ['.', '.'] ++ ['.'] <:+ outsideBrackets 0 text := by
      rw [marks]
      exact not_suffix_append (List.cons_ne_nil _ _) fun member =>
        absurd (List.eq_of_mem_replicate member) (by decide)
    have unmarked : ¬ [] ++ ['?'] <:+ element ++ ['.', '.', '.'] :=
      not_suffix_append (List.cons_ne_nil _ _) (by decide)
    refine ⟨element, ?_⟩
    rw [simplifyChars, ellipsisToArray_of_not_suffix hidden, marks,
      dropQuestionMarks_append_marks unmarked]

end Characters

/-! ### The normal form -/

/-- A spelling in which nothing is left to simplify. -/
structure IsSimplified (spelling : String) : Prop where
  plain : spelling.toList.all isPlain = true
  unmarked : ¬ ['?'] <:+ spelling.toList
  single : ¬ ['.', '.', '.'] <:+ spelling.toList

/-- A spelling that ends, outside angle brackets, in an ellipsis with question marks behind it. -/
def MarkedEllipsis (spelling : String) : Prop :=
  ∃ element count, outsideBrackets 0 spelling.toList =
    element ++ ['.', '.', '.'] ++ List.replicate (count + 1) '?'

section Normal

variable {spelling : String}

theorem plain_simplify (spelling : String) : (simplify spelling).toList.all isPlain = true := by
  rw [simplify, String.toList_ofList]
  exact all_isPlain_simplifyChars _

theorem unmarked_simplify (spelling : String) : ¬ ['?'] <:+ (simplify spelling).toList := by
  rw [simplify, String.toList_ofList]
  exact not_suffix_dropQuestionMarks _

theorem suffix_simplify_iff :
    ['.', '.', '.'] <:+ (simplify spelling).toList ↔ MarkedEllipsis spelling := by
  rw [simplify, String.toList_ofList]
  exact suffix_simplifyChars_iff

theorem isSimplified_simplify_iff : IsSimplified (simplify spelling) ↔ ¬ MarkedEllipsis spelling :=
  ⟨fun simplified marked => simplified.single (suffix_simplify_iff.mpr marked), fun unmarked =>
    ⟨plain_simplify spelling, unmarked_simplify spelling,
      fun ending => unmarked (suffix_simplify_iff.mp ending)⟩⟩

/-- There are no marks behind an ellipsis once marks have been taken off. -/
theorem not_markedEllipsis_simplify (spelling : String) : ¬ MarkedEllipsis (simplify spelling) := by
  rintro ⟨element, count, marks⟩
  rw [outsideBrackets_of_plain (plain_simplify spelling)] at marks
  apply unmarked_simplify spelling
  rw [marks, List.replicate_succ', ← List.append_assoc]
  exact List.suffix_append _ _

/-- The spellings in normal form are those that simplifying leaves as they are. -/
theorem simplify_eq_self_iff : simplify spelling = spelling ↔ IsSimplified spelling := by
  constructor
  · intro same
    have twice := isSimplified_simplify_iff.mpr (not_markedEllipsis_simplify spelling)
    rwa [same, same] at twice
  · rintro ⟨plain, unmarked, single⟩
    exact simplify_of_plain plain unmarked single

/-- A simplified spelling has neither angle brackets nor blanks and does not end in a question mark.
It may end in an ellipsis still, and simplifying again may change it, exactly if there were marks
behind an ellipsis.  It takes no more than two turns. -/
theorem simplify_normalizes (spelling : String) :
    (∀ c ∈ (simplify spelling).toList, c ≠ '<' ∧ c ≠ '>' ∧ isBlank c = false) ∧
      ¬ ['?'] <:+ (simplify spelling).toList ∧
      (['.', '.', '.'] <:+ (simplify spelling).toList ↔ MarkedEllipsis spelling) ∧
      (simplify (simplify spelling) = simplify spelling ↔ ¬ MarkedEllipsis spelling) ∧
      IsSimplified (simplify (simplify spelling)) := by
  refine ⟨fun c member => ?_, unmarked_simplify spelling, suffix_simplify_iff,
    simplify_eq_self_iff.trans isSimplified_simplify_iff,
    isSimplified_simplify_iff.mpr (not_markedEllipsis_simplify spelling)⟩
  have plain := List.all_eq_true.mp (plain_simplify spelling) c member
  simpa [isPlain, and_assoc] using plain

/-- The ellipsis behind which there is a mark becomes an array dimension in the second turn only. -/
theorem simplify_leaves_ellipsis :
    simplify "String...?" = "String..." ∧ simplify (simplify "String...?") = "String[]" := by
  decide +kernel

end Normal

end Correlate.TypeName
