/-
Module: Correlate.Proofs.Spelling
Purpose: What is kept of the spelling of a type when it is cut, simplified or put in binary form.
Main exports: segments_append, eq_of_first_stop, segments_afterLast, lastPiece, lastPiece_toBinary,
  innermostChars_eq, openBrackets, simplify_of_plain, simplify_append_ellipsis,
  simplify_append_array, element_append_array, dimensions_append_array
-/
import Mathlib.Data.List.DropRight
import Correlate.TypeName

namespace Correlate

/-!
Compiled and source names end in the same piece, the one after the last point or dollar sign.
Binary form only turns points into dollar signs, and a qualifier is put in front, so the last piece
stays.  What is written at the end of a spelling stays as well, unless an angle bracket is open there
or it is itself an ending that simplifying takes off.
-/

namespace Text

variable {separator : Char} {front back text : List Char}

theorem segments_append (separator : Char) (front back : List Char) :
    segments separator (front ++ separator :: back) =
      segments separator front ++ segments separator back := by
  induction front with
  | nil => simp [segments]
  | cons c front inductionHypothesis =>
      by_cases same : c = separator
      · simp [segments, same, inductionHypothesis]
      · rw [List.cons_append, segments, if_neg same, inductionHypothesis, segments, if_neg same]
        cases pieces : segments separator front with
        | nil => exact absurd pieces (segments_ne_nil separator front)
        | cons first others => rfl

theorem segments_of_not_mem (clean : separator ∉ text) : segments separator text = [text] := by
  induction text with
  | nil => rfl
  | cons c rest inductionHypothesis =>
      rw [List.mem_cons, not_or] at clean
      rw [segments, if_neg (Ne.symm clean.1), inductionHypothesis clean.2]

/-- What a text ends in is not affected by what stands before a character that ends it. -/
theorem rtakeWhile_append_stop {p : Char → Bool} {c : Char} (stops : p c = false)
    (front back : List Char) : (front ++ c :: back).rtakeWhile p = back.rtakeWhile p := by
  simp only [List.rtakeWhile, List.reverse_append, List.reverse_cons, List.append_assoc,
    List.singleton_append, List.takeWhile_append, List.reverse_inj]
  split
  · next whole =>
    rw [List.takeWhile_cons_of_neg (by simp [stops]), List.append_nil,
      (List.takeWhile_prefix p).eq_of_length whole]
  · rfl

/-- There is one way to cut a text at the first character that stops it. -/
theorem eq_of_first_stop {α : Type} {p : α → Bool} {front front' back back' : List α} {c d : α}
    (clean : ∀ c ∈ front, p c = false) (clean' : ∀ c ∈ front', p c = false) (stops : p c = true)
    (stops' : p d = true) (same : front ++ c :: back = front' ++ d :: back') :
    front = front' ∧ c = d ∧ back = back' := by
  have leading {front back : List α} {c : α} (clean : ∀ c ∈ front, p c = false)
      (stops : p c = true) : (front ++ c :: back).takeWhile (fun c => !p c) = front := by
    rw [List.takeWhile_append_of_pos (by simpa using clean),
      List.takeWhile_cons_of_neg (by simp [stops]), List.append_nil]
  have fronts : front = front' := by
    rw [← leading clean stops, same, leading clean' stops']
  subst fronts
  rw [List.append_cancel_left_eq, List.cons.injEq] at same
  exact ⟨rfl, same⟩

theorem afterLast_of_not_mem (clean : separator ∉ text) : afterLast separator text = text := by
  apply List.rtakeWhile_eq_self_iff.mpr
  rintro c member
  rw [decide_eq_true_iff]
  rintro rfl
  exact clean member

theorem afterLast_append (clean : separator ∉ back) :
    afterLast separator (front ++ separator :: back) = back :=
  (rtakeWhile_append_stop (by simp) front back).trans (afterLast_of_not_mem clean)

/-- A text with a separator, cut at the last one. -/
theorem exists_last_separator (member : separator ∈ text) :
    ∃ front back, text = front ++ separator :: back ∧ separator ∉ back := by
  obtain ⟨back, front, same, clean⟩ := List.eq_append_cons_of_mem (List.mem_reverse.mpr member)
  refine ⟨front.reverse, back.reverse, ?_, List.mem_reverse.not.mpr clean⟩
  simpa using congrArg List.reverse same

/-- The last piece is what follows the last separator. -/
theorem segments_afterLast (separator : Char) (text : List Char) :
    ∃ front, segments separator text = front ++ [afterLast separator text] := by
  by_cases member : separator ∈ text
  · obtain ⟨front, back, rfl, clean⟩ := exists_last_separator member
    refine ⟨segments separator front, ?_⟩
    rw [segments_append, segments_of_not_mem clean, afterLast_append clean]
  · exact ⟨[], by rw [segments_of_not_mem member, afterLast_of_not_mem member, List.nil_append]⟩

theorem afterLast_mem_segments (separator : Char) (text : List Char) :
    afterLast separator text ∈ segments separator text := by
  obtain ⟨front, cut⟩ := segments_afterLast separator text
  rw [cut]
  exact List.mem_append_right _ (List.mem_singleton_self _)

end Text

namespace TypeName

open Text

/-! ### The last piece -/

/-- The character separates the name of a package or type from a name in it. -/
def isSeparator (c : Char) : Bool :=
  c = '.' || c = '$'

/-- What follows the last point or dollar sign. -/
def lastPiece (name : List Char) : List Char :=
  name.rtakeWhile fun c => !isSeparator c

/-- Everything between points and dollar signs. -/
def pieces (name : List Char) : List (List Char) :=
  (segments '.' name).flatMap (segments '$')

/-- Every point and dollar sign stands between two names. -/
def Unbroken (name : String) : Prop :=
  [] ∉ pieces name.toList

instance (name : String) : Decidable (Unbroken name) :=
  inferInstanceAs (Decidable ([] ∉ pieces name.toList))

section LastPiece

variable {c : Char} {front back name : List Char}

theorem lastPiece_append_separator (separates : isSeparator c = true) (front back : List Char) :
    lastPiece (front ++ c :: back) = lastPiece back :=
  rtakeWhile_append_stop (by simp [separates]) front back

/-- What is put in front of a separator does not change the last piece. -/
theorem lastPiece_separated {mark : String} (isMark : mark.toList = [c])
    (separates : isSeparator c = true) (front back : String) :
    lastPiece (front ++ mark ++ back).toList = lastPiece back.toList := by
  rw [String.toList_append, String.toList_append, isMark, List.append_assoc, List.singleton_append,
    lastPiece_append_separator separates]

theorem lastPiece_qualified (qualifier name : String) :
    lastPiece s!"{qualifier}.{name}".toList = lastPiece name.toList :=
  lastPiece_separated rfl rfl qualifier name

theorem lastPiece_nested (outer name : String) :
    lastPiece s!"{outer}${name}".toList = lastPiece name.toList :=
  lastPiece_separated rfl rfl outer name

theorem lastPiece_append_of_plain (plain : ∀ c ∈ back, isSeparator c = false) (front : List Char) :
    lastPiece (front ++ back) = lastPiece front ++ back := by
  rw [lastPiece, List.rtakeWhile, List.reverse_append,
    List.takeWhile_append_of_pos (by simpa using plain), List.reverse_append, List.reverse_reverse]
  rfl

theorem lastPiece_eq_afterLast (name : List Char) :
    lastPiece name = afterLast '$' (afterLast '.' name) := by
  simp only [lastPiece, List.rtakeWhile, afterLast, List.reverse_reverse, List.takeWhile_takeWhile]
  congr 2
  funext c
  simp [isSeparator, Bool.and_comm]

theorem lastPiece_mem_pieces (name : List Char) : lastPiece name ∈ pieces name := by
  rw [lastPiece_eq_afterLast]
  exact List.mem_flatMap.mpr ⟨_, afterLast_mem_segments '.' name, afterLast_mem_segments '$' _⟩

theorem lastPiece_afterLast (name : List Char) :
    lastPiece (afterLast '.' name) = lastPiece name := by
  by_cases member : '.' ∈ name
  · obtain ⟨front, back, rfl, clean⟩ := exists_last_separator member
    rw [afterLast_append clean, lastPiece_append_separator rfl]
  · rw [afterLast_of_not_mem member]

/-- The innermost name is the last piece, unless nothing is left of that. -/
theorem innermostChars_eq (some : lastPiece name ≠ []) : innermostChars name = lastPiece name := by
  rw [lastPiece_eq_afterLast] at some ⊢
  simp [innermostChars, some]

/-- Whichever separators are put between segments, the last piece is the same. -/
theorem lastPiece_nestedSegments (insideType : Bool) (front : List Char) (rest : List (List Char)) :
    lastPiece (front ++ nestedSegments insideType rest) =
      lastPiece (joinSegments '.' (front :: rest)) := by
  induction rest generalizing insideType front with
  | nil => simp [nestedSegments, joinSegments]
  | cons segment others inductionHypothesis =>
      have separates : isSeparator (if insideType then '$' else '.') = true := by
        cases insideType <;> rfl
      rw [nestedSegments, lastPiece_append_separator separates, inductionHypothesis, joinSegments,
        lastPiece_append_separator rfl]

theorem lastPiece_toBinary (name : String) :
    lastPiece (toBinary name).toList = lastPiece name.toList := by
  have joined := joinSegments_segments '.' name.toList
  rw [toBinary, String.toList_ofList]
  cases cut : segments '.' name.toList with
  | nil => exact absurd cut (segments_ne_nil _ _)
  | cons first rest => rw [ofSegments, lastPiece_nestedSegments, ← cut, joined]

end LastPiece

/-! ### Array dimensions -/

theorem dropReversedDimensions_idem : ∀ name : List Char,
    dropReversedDimensions (dropReversedDimensions name) = dropReversedDimensions name := by
  intro name
  fun_induction dropReversedDimensions name with
  | case1 rest inductionHypothesis => exact inductionHypothesis
  | case2 rest other =>
      unfold dropReversedDimensions
      split
      · next rest' => exact absurd rfl (other rest')
      · rfl

theorem dropReversedDimensions_append (count : Nat) (rest : List Char) :
    dropReversedDimensions ((List.replicate count [']', '[']).flatten ++ rest) =
      dropReversedDimensions rest := by
  induction count with
  | zero => rfl
  | succ count inductionHypothesis =>
      rw [List.replicate_succ, List.flatten_cons, List.append_assoc]
      exact inductionHypothesis

theorem reverse_dimensions (count : Nat) : (List.replicate count ['[', ']']).flatten.reverse =
    (List.replicate count [']', '[']).flatten := by
  rw [List.reverse_flatten, List.map_replicate, List.reverse_replicate]
  rfl

theorem elementChars_append (name : List Char) (count : Nat) :
    elementChars (elementChars name ++ (List.replicate count ['[', ']']).flatten) =
      elementChars name := by
  simp only [elementChars, List.reverse_append, reverse_dimensions, List.reverse_reverse,
    dropReversedDimensions_append, dropReversedDimensions_idem]

/-- A type without dimensions and a number of dimensions can be read off the two together. -/
theorem dimensions_of_text {one other : String} {count number : Nat}
    (same : element one ++ dimensionText count = element other ++ dimensionText number) :
    count = number := by
  have chars := congrArg String.toList same
  simp only [element, dimensionText, String.toList_append, String.toList_ofList] at chars
  have elements := congrArg elementChars chars
  rw [elementChars_append, elementChars_append] at elements
  rw [elements, List.append_cancel_left_eq] at chars
  have lengths := congrArg List.length chars
  simp only [List.length_flatten, List.map_replicate, List.sum_replicate_nat, List.length_cons,
    List.length_nil] at lengths
  omega

theorem exists_reversedDimensions (name : List Char) : ∃ count,
    name = (List.replicate count [']', '[']).flatten ++ dropReversedDimensions name := by
  fun_induction dropReversedDimensions name with
  | case1 rest inductionHypothesis =>
      obtain ⟨count, same⟩ := inductionHypothesis
      refine ⟨count + 1, ?_⟩
      rw [List.replicate_succ, List.flatten_cons, List.append_assoc, ← same]
      rfl
  | case2 rest => exact ⟨0, rfl⟩

/-- A name is its element followed by its dimensions. -/
theorem exists_dimensions (name : List Char) : ∃ count,
    name = elementChars name ++ (List.replicate count ['[', ']']).flatten := by
  obtain ⟨count, same⟩ := exists_reversedDimensions name.reverse
  refine ⟨count, List.reverse_injective ?_⟩
  rw [List.reverse_append, reverse_dimensions, elementChars, List.reverse_reverse, ← same]

theorem dimensions_toList (name : String) : ∃ count,
    (dimensions name).toList = (List.replicate count ['[', ']']).flatten ∧
      name.toList = (element name).toList ++ (dimensions name).toList := by
  obtain ⟨count, same⟩ := exists_dimensions name.toList
  have rest : name.toList.drop (elementChars name.toList).length =
      (List.replicate count ['[', ']']).flatten := by
    conv_lhs => rw [same]
    rw [elementChars_append, List.drop_left]
  refine ⟨count, ?_, ?_⟩
  · rw [dimensions, String.toList_ofList, rest]
  · rw [dimensions, String.toList_ofList, rest, element, String.toList_ofList, ← same]

/-- Dimensions belong to the last piece of a name. -/
theorem lastPiece_append_dimensions (front : List Char) (name : String) :
    lastPiece (front ++ (dimensions name).toList) =
      lastPiece front ++ (dimensions name).toList := by
  obtain ⟨count, brackets, -⟩ := dimensions_toList name
  refine lastPiece_append_of_plain (fun c member => ?_) front
  rw [brackets] at member
  obtain ⟨pair, isPair, member⟩ := List.mem_flatten.mp member
  obtain rfl := List.eq_of_mem_replicate isPair
  rcases List.mem_pair.mp member with rfl | rfl <;> rfl

theorem element_append_array (name : String) : element (name ++ "[]") = element name := by
  simp [element, elementChars, dropReversedDimensions]

theorem dimensions_append_array (name : String) :
    dimensions (name ++ "[]") = dimensions name ++ "[]" := by
  obtain ⟨count, -, parts⟩ := dimensions_toList name
  obtain ⟨count', -, parts'⟩ := dimensions_toList (name ++ "[]")
  rw [element_append_array, String.toList_append, parts, List.append_assoc,
    List.append_cancel_left_eq] at parts'
  exact String.toList_injective (by rw [String.toList_append, parts'])

/-! ### Simplifying -/

/-- How many angle brackets are open at the end of a text, if `depth` are at its start. -/
def openBrackets : Nat → List Char → Nat
  | depth, [] => depth
  | depth, c :: rest =>
      if c = '<' then openBrackets (depth + 1) rest
      else if c = '>' then openBrackets (depth - 1) rest
      else openBrackets depth rest

section Simplifying

variable {text : List Char}

/-- No more brackets are open than there are characters before. -/
theorem openBrackets_le (depth : Nat) (text : List Char) :
    openBrackets depth text ≤ depth + text.length := by
  induction text generalizing depth with
  | nil => exact Nat.le_refl _
  | cons c rest inductionHypothesis =>
      have opened := inductionHypothesis (depth + 1)
      have closed := inductionHypothesis (depth - 1)
      have kept := inductionHypothesis depth
      rw [openBrackets, List.length_cons]
      split_ifs <;> omega

theorem outsideBrackets_append (depth : Nat) (front back : List Char) :
    outsideBrackets depth (front ++ back) =
      outsideBrackets depth front ++ outsideBrackets (openBrackets depth front) back := by
  induction front generalizing depth with
  | nil => rfl
  | cons c rest inductionHypothesis =>
      simp only [List.cons_append, outsideBrackets, openBrackets, inductionHypothesis]
      split_ifs <;> rfl

/-- Neither an angle bracket nor a blank. -/
def isPlain (c : Char) : Bool :=
  c ≠ '<' && c ≠ '>' && !isBlank c

/-- Plain characters are kept outside brackets and dropped inside. -/
theorem outsideBrackets_append_plain (front : List Char) {back : List Char}
    (plain : back.all isPlain = true) :
    outsideBrackets 0 (front ++ back) =
      outsideBrackets 0 front ++ if openBrackets 0 front = 0 then back else [] := by
  have kept (depth : Nat) : outsideBrackets depth back = if depth = 0 then back else [] := by
    induction back with
    | nil => simp [outsideBrackets]
    | cons c rest inductionHypothesis =>
        rw [List.all_cons, Bool.and_eq_true] at plain
        obtain ⟨⟨noOpening, noClosing⟩, noBlank⟩ : (c ≠ '<' ∧ c ≠ '>') ∧ isBlank c = false := by
          simpa [isPlain] using plain.1
        rw [outsideBrackets, if_neg noOpening, if_neg noClosing, inductionHypothesis plain.2]
        by_cases outside : depth = 0 <;> simp [outside, noBlank]
  rw [outsideBrackets_append, kept]

theorem outsideBrackets_of_plain (plain : text.all isPlain = true) : outsideBrackets 0 text = text :=
  outsideBrackets_append_plain [] plain

theorem ellipsisToArray_append (text : List Char) :
    ellipsisToArray (text ++ ['.', '.', '.']) = text ++ ['[', ']'] := by
  rw [ellipsisToArray, dropEnding?_eq_some_iff.mpr rfl]

theorem ellipsisToArray_of_not_suffix (other : ¬ ['.', '.', '.'] <:+ text) :
    ellipsisToArray text = text := by
  cases cut : dropEnding? ['.', '.', '.'] text with
  | some rest => exact absurd ⟨rest, (dropEnding?_eq_some_iff.mp cut).symm⟩ other
  | none => rw [ellipsisToArray, cut]

theorem dropQuestionMarks_of_not_suffix (other : ¬ ['?'] <:+ text) :
    dropQuestionMarks text = text := by
  apply List.rdropWhile_eq_self_iff.mpr
  intro nonempty marked
  rw [decide_eq_true_iff] at marked
  exact other ⟨text.dropLast, by rw [← marked, List.dropLast_concat_getLast]⟩

/-- The last character of an ending is in what the text ends with. -/
theorem not_suffix_append {front back ending : List Char} {c : Char} (nonempty : back ≠ [])
    (clean : c ∉ back) : ¬ ending ++ [c] <:+ front ++ back := by
  rintro ⟨rest, same⟩
  have last := congrArg List.getLast? same
  rw [← List.append_assoc, List.getLast?_concat, List.getLast?_append_of_ne_nil _ nonempty] at last
  exact clean (List.mem_of_getLast? last.symm)

/-- A text that ends in an array dimension has no other ending. -/
theorem not_suffix_append_array (front ending : List Char) {c : Char} (other : c ≠ ']') :
    ¬ ending ++ [c] <:+ front ++ ['[', ']'] := by
  rw [List.append_cons front]
  exact not_suffix_append (List.cons_ne_nil _ _) (mt List.mem_singleton.mp other)

theorem dropQuestionMarks_append_array (front : List Char) :
    dropQuestionMarks (front ++ ['[', ']']) = front ++ ['[', ']'] :=
  dropQuestionMarks_of_not_suffix (not_suffix_append_array front [] (by decide))

theorem ellipsisToArray_append_array (front : List Char) :
    ellipsisToArray (front ++ ['[', ']']) = front ++ ['[', ']'] :=
  ellipsisToArray_of_not_suffix (not_suffix_append_array front ['.', '.'] (by decide))

theorem simplifyChars_append_array (closed : openBrackets 0 text = 0) :
    simplifyChars (text ++ ['[', ']']) = outsideBrackets 0 text ++ ['[', ']'] := by
  rw [simplifyChars, outsideBrackets_append_plain text (by decide), if_pos closed,
    ellipsisToArray_append_array, dropQuestionMarks_append_array]

/-- An ellipsis is one array dimension, and inside angle brackets both are dropped. -/
theorem simplifyChars_append_ellipsis (text : List Char) :
    simplifyChars (text ++ ['.', '.', '.']) = simplifyChars (text ++ ['[', ']']) := by
  rw [simplifyChars, simplifyChars, outsideBrackets_append_plain text (by decide),
    outsideBrackets_append_plain text (by decide)]
  split
  · rw [ellipsisToArray_append, ellipsisToArray_append_array]
  · rfl

/-- Simplifying takes nothing off the end, unless there is one of the two endings. -/
theorem simplifyChars_of_not_suffix (unmarked : ¬ ['?'] <:+ outsideBrackets 0 text)
    (single : ¬ ['.', '.', '.'] <:+ outsideBrackets 0 text) :
    simplifyChars text = outsideBrackets 0 text := by
  rw [simplifyChars, ellipsisToArray_of_not_suffix single, dropQuestionMarks_of_not_suffix unmarked]

end Simplifying

/-- There is nothing to simplify in a name without detail. -/
theorem simplify_of_plain {name : String} (plain : name.toList.all isPlain = true)
    (unmarked : ¬ ['?'] <:+ name.toList) (single : ¬ ['.', '.', '.'] <:+ name.toList) :
    simplify name = name := by
  have kept := outsideBrackets_of_plain plain
  rw [simplify, simplifyChars_of_not_suffix, kept, String.ofList_toList]
  · rwa [kept]
  · rwa [kept]

theorem simplify_append_ellipsis (spelling : String) :
    simplify (spelling ++ "...") = simplify (spelling ++ "[]") := by
  simp only [simplify, String.toList_append]
  exact congrArg String.ofList (simplifyChars_append_ellipsis spelling.toList)

theorem simplify_append_array {spelling : String} (closed : openBrackets 0 spelling.toList = 0)
    (unmarked : ¬ ['?'] <:+ outsideBrackets 0 spelling.toList)
    (single : ¬ ['.', '.', '.'] <:+ outsideBrackets 0 spelling.toList) :
    simplify (spelling ++ "[]") = simplify spelling ++ "[]" := by
  have array := simplifyChars_append_array closed
  rw [← simplifyChars_of_not_suffix unmarked single] at array
  apply String.toList_injective
  simpa [simplify] using array

end TypeName

end Correlate
