/-
Module: Correlate.Proofs.BinaryForm
Purpose: Binary form of names that are put together from those of packages and nested types.
Main exports: segments_joinSegments, ofSegments_fuse, toBinary_idem, nestedIn, toBinary_inside,
  toBinary_nestedIn
-/
import Correlate.Proofs.Spelling

namespace Correlate

/-!
Binary form reads a name segment by segment.  From the first segment on that names a type, all of it
is one segment of the result, so there is nothing left to change in it, and whether a point or a dollar
sign stood between the types does not show.
-/

namespace Text

variable {separator : Char}

theorem not_mem_of_mem_segments {text piece : List Char} (member : piece ∈ segments separator text) :
    separator ∉ piece := by
  induction text generalizing piece with
  | nil =>
      rw [segments, List.mem_singleton] at member
      rw [member]
      exact List.not_mem_nil
  | cons c rest inductionHypothesis =>
      rw [segments] at member
      split at member
      · rcases List.mem_cons.mp member with rfl | member
        · exact List.not_mem_nil
        · exact inductionHypothesis member
      · next other =>
        cases cut : segments separator rest with
        | nil => exact absurd cut (segments_ne_nil separator rest)
        | cons first others =>
            rw [cut] at member inductionHypothesis
            rcases List.mem_cons.mp member with rfl | member
            · rw [List.mem_cons, not_or]
              exact ⟨Ne.symm other, inductionHypothesis List.mem_cons_self⟩
            · exact inductionHypothesis (List.mem_cons_of_mem _ member)

/-- Pieces without the separator are cut apart again. -/
theorem segments_joinSegments {pieces : List (List Char)} (nonempty : pieces ≠ [])
    (clean : ∀ piece ∈ pieces, separator ∉ piece) :
    segments separator (joinSegments separator pieces) = pieces := by
  fun_induction joinSegments separator pieces with
  | case1 => exact absurd rfl nonempty
  | case2 only => exact segments_of_not_mem (clean only (List.mem_singleton_self only))
  | case3 first second others inductionHypothesis =>
      rw [segments_append, segments_of_not_mem (clean first List.mem_cons_self),
        inductionHypothesis (List.cons_ne_nil _ _)
          fun piece member => clean piece (List.mem_cons_of_mem _ member)]
      rfl

theorem joinSegments_concat {pieces : List (List Char)} (nonempty : pieces ≠ [])
    (last : List Char) :
    joinSegments separator (pieces ++ [last]) =
      joinSegments separator pieces ++ separator :: last := by
  fun_induction joinSegments separator pieces with
  | case1 => exact absurd rfl nonempty
  | case2 only => rfl
  | case3 first second others inductionHypothesis =>
      have grown := inductionHypothesis (List.cons_ne_nil _ _)
      rw [List.cons_append] at grown
      rw [List.cons_append, List.cons_append, joinSegments, grown, List.append_assoc]
      rfl

theorem joinSegments_eq_intercalate (pieces : List (List Char)) :
    joinSegments separator pieces = [separator].intercalate pieces := by
  fun_induction joinSegments separator pieces with
  | case1 => rfl
  | case2 only => exact (List.intercalate_singleton).symm
  | case3 first second others inductionHypothesis =>
      rw [inductionHypothesis, List.intercalate_cons_cons, List.append_assoc]
      rfl

theorem mem_joinSegments {pieces : List (List Char)} {c : Char}
    (member : c ∈ joinSegments separator pieces) : c = separator ∨ ∃ piece ∈ pieces, c ∈ piece := by
  fun_induction joinSegments separator pieces with
  | case1 => cases member
  | case2 only => exact .inr ⟨only, List.mem_singleton_self only, member⟩
  | case3 first second others inductionHypothesis =>
      rcases List.mem_append.mp member with inFirst | after
      · exact .inr ⟨first, List.mem_cons_self, inFirst⟩
      · rcases List.mem_cons.mp after with same | inOthers
        · exact .inl same
        · rcases inductionHypothesis inOthers with same | ⟨piece, listed, inPiece⟩
          · exact .inl same
          · exact .inr ⟨piece, List.mem_cons_of_mem _ listed, inPiece⟩

end Text

namespace TypeName

open Text

/-! ### Segments -/

section Segments

variable {first : List Char} {inner front rest : List (List Char)}

/-- While no segment changes the separator, it is the same one throughout. -/
theorem append_nestedSegments {insideType : Bool}
    (steady : ∀ segment ∈ rest.dropLast, (insideType || namesType segment) = insideType)
    (first : List Char) : first ++ nestedSegments insideType rest =
      joinSegments (if insideType then '$' else '.') (first :: rest) := by
  induction rest generalizing first with
  | nil => exact List.append_nil first
  | cons segment others inductionHypothesis =>
      cases others with
      | nil => simp only [nestedSegments, joinSegments, List.append_nil]
      | cons next others =>
          have kept := steady segment List.mem_cons_self
          rw [nestedSegments, kept, joinSegments, inductionHypothesis]
          exact fun segment member => steady segment (List.mem_cons_of_mem _ member)

theorem nestedSegments_append (insideType : Bool) (front back : List (List Char)) :
    nestedSegments insideType (front ++ back) = nestedSegments insideType front ++
      nestedSegments (insideType || front.any namesType) back := by
  induction front generalizing insideType with
  | nil => rw [List.any_nil, Bool.or_false]; rfl
  | cons segment rest inductionHypothesis =>
      rw [List.cons_append, nestedSegments, inductionHypothesis, nestedSegments, List.any_cons,
        Bool.or_assoc, List.cons_append, List.append_assoc]

/-- From a segment that names a type on, there are only dollar signs. -/
theorem ofSegments_fuse (isType : namesType first = true) (front inner : List (List Char)) :
    ofSegments (front ++ first :: inner) = ofSegments (front ++ [joinSegments '$' (first :: inner)]) := by
  have nested : first ++ nestedSegments true inner = joinSegments '$' (first :: inner) :=
    append_nestedSegments (fun _ _ => rfl) first
  cases front with
  | nil => rw [List.nil_append, List.nil_append, ofSegments, isType, nested, ofSegments,
      nestedSegments, List.append_nil]
  | cons head tail =>
      rw [List.cons_append, List.cons_append, ofSegments, ofSegments, nestedSegments_append,
        nestedSegments_append, nestedSegments, isType, Bool.or_true, nested, nestedSegments,
        nestedSegments, List.append_nil]

/-- Without a type in front of the last segment, there are only points. -/
theorem ofSegments_of_dropLast {segments : List (List Char)}
    (plain : ∀ segment ∈ segments.dropLast, namesType segment = false) :
    ofSegments segments = joinSegments '.' segments := by
  cases segments with
  | nil => rfl
  | cons first rest =>
      cases rest with
      | nil => exact List.append_nil first
      | cons second others =>
          rw [ofSegments, plain first List.mem_cons_self, append_nestedSegments]
          · rfl
          · exact fun segment member => plain segment (List.mem_cons_of_mem _ member)

theorem ofSegments_concat (plain : ∀ segment ∈ front, namesType segment = false)
    (last : List Char) : ofSegments (front ++ [last]) = joinSegments '.' (front ++ [last]) :=
  ofSegments_of_dropLast (by rwa [List.dropLast_concat])

end Segments

/-! ### Names -/

/-- Binary form has nothing left to change. -/
theorem toBinary_idem (name : String) : toBinary (toBinary name) = toBinary name := by
  rw [toBinary, toBinary, String.toList_ofList]
  apply congrArg String.ofList
  have joined := joinSegments_segments '.' name.toList
  have clean : ∀ segment ∈ segments '.' name.toList, '.' ∉ segment :=
    fun _ => not_mem_of_mem_segments
  cases found : (segments '.' name.toList).find? namesType with
  | none =>
      have same : ofSegments (segments '.' name.toList) = name.toList := by
        rw [ofSegments_of_dropLast, joined]
        intro segment member
        simpa using List.find?_eq_none.mp found segment (List.dropLast_subset _ member)
      rw [same, same]
  | some first =>
      obtain ⟨isType, front, inner, cut, plain⟩ := List.find?_eq_some_iff_append.mp found
      rw [cut] at clean ⊢
      have written := ofSegments_concat (by simpa using plain) (joinSegments '$' (first :: inner))
      rw [ofSegments_fuse isType, written, segments_joinSegments (by simp), written]
      intro segment member
      rcases List.mem_append.mp member with inFront | isLast
      · exact clean segment (List.mem_append_left _ inFront)
      · rw [List.mem_singleton.mp isLast]
        intro point
        rcases mem_joinSegments point with mark | ⟨piece, listed, inPiece⟩
        · cases mark
        · exact clean piece (List.mem_append_right _ listed) inPiece

/-- The name of nested types, outermost first, with a mark after each but the last. -/
def nested (mark : String) (names : List String) : String :=
  mark.intercalate names

/-- The name of nested types of a package. -/
def nestedIn (package mark : String) (names : List String) : String :=
  if package.isEmpty then nested mark names else s!"{package}.{nested mark names}"

section Nested

variable {mark first : String} {separator : Char} {names inner : List String}

theorem nested_toList (isMark : mark.toList = [separator]) (names : List String) :
    (nested mark names).toList = joinSegments separator (names.map String.toList) := by
  rw [nested, String.toList_intercalate, isMark, joinSegments_eq_intercalate]

theorem mem_nested {c : Char} (isMark : mark.toList = [separator])
    (member : c ∈ (nested mark names).toList) :
    c = separator ∨ ∃ name ∈ names, c ∈ name.toList := by
  rw [nested_toList isMark] at member
  refine (mem_joinSegments member).imp_right ?_
  rintro ⟨_, listed, inName⟩
  obtain ⟨name, isName, rfl⟩ := List.mem_map.mp listed
  exact ⟨name, isName, inName⟩

theorem segments_nested (nonempty : names ≠ []) (clean : ∀ name ∈ names, '.' ∉ name.toList) :
    segments '.' (nested "." names).toList = names.map String.toList := by
  rw [nested_toList rfl]
  exact segments_joinSegments (by simpa using nonempty) (by simpa using clean)

/-- Dollar signs do not cut a name. -/
theorem segments_nested_binary (clean : ∀ name ∈ names, '.' ∉ name.toList) :
    segments '.' (nested "$" names).toList = [(nested "$" names).toList] := by
  apply segments_of_not_mem
  intro point
  rcases mem_nested rfl point with mark | ⟨name, isName, inName⟩
  · cases mark
  · exact clean name isName inName

/-- Behind whatever there is in front, nested types are named alike with either mark. -/
theorem ofSegments_nested (isType : namesType first.toList = true)
    (clean : ∀ name ∈ first :: inner, '.' ∉ name.toList) (front : List (List Char)) :
    ofSegments (front ++ segments '.' (nested "." (first :: inner)).toList) =
      ofSegments (front ++ [(nested "$" (first :: inner)).toList]) := by
  have fused : (nested "$" (first :: inner)).toList =
      joinSegments '$' (first.toList :: inner.map String.toList) := nested_toList rfl _
  rw [segments_nested (List.cons_ne_nil _ _) clean, List.map_cons, ofSegments_fuse isType, fused]

theorem toBinary_nested (isType : namesType first.toList = true)
    (clean : ∀ name ∈ first :: inner, '.' ∉ name.toList) :
    toBinary (nested "." (first :: inner)) = nested "$" (first :: inner) := by
  have written := ofSegments_nested isType clean []
  rw [List.nil_append, List.nil_append, ofSegments, nestedSegments, List.append_nil] at written
  rw [toBinary, written, String.ofList_toList]

theorem qualified_toList (qualifier name : String) :
    s!"{qualifier}.{name}".toList = qualifier.toList ++ '.' :: name.toList := by
  change (qualifier ++ "." ++ name).toList = _
  rw [String.toList_append, String.toList_append, List.append_assoc]
  rfl

theorem toBinary_qualified (isType : namesType first.toList = true)
    (clean : ∀ name ∈ first :: inner, '.' ∉ name.toList) (qualifier : String) :
    toBinary (qualifier ++ "." ++ nested "." (first :: inner)) =
      toBinary (qualifier ++ "." ++ nested "$" (first :: inner)) := by
  change toBinary s!"{qualifier}.{nested _ _}" = toBinary s!"{qualifier}.{nested _ _}"
  rw [toBinary, toBinary, qualified_toList, qualified_toList, segments_append, segments_append,
    ofSegments_nested isType clean, segments_nested_binary clean]

theorem joinSegments_nested (nonempty : names ≠ []) (first : List Char) :
    joinSegments '$' (first :: names.map String.toList) =
      joinSegments '$' [first, (nested "$" names).toList] := by
  have inside : (nested "$" names).toList = joinSegments '$' (names.map String.toList) :=
    nested_toList rfl names
  cases names with
  | nil => exact absurd rfl nonempty
  | cons second others => rw [List.map_cons, joinSegments, inside]; rfl

/-- Behind the name of a type, the types nested in it are named alike with either mark. -/
theorem toBinary_inside {qualifier : String}
    (isType : namesType (afterLast '.' qualifier.toList) = true) (nonempty : names ≠ [])
    (clean : ∀ name ∈ names, '.' ∉ name.toList) :
    toBinary (qualifier ++ "." ++ nested "." names) =
      toBinary (qualifier ++ "." ++ nested "$" names) := by
  obtain ⟨front, cut⟩ := segments_afterLast '.' qualifier.toList
  change toBinary s!"{qualifier}.{nested _ _}" = toBinary s!"{qualifier}.{nested _ _}"
  rw [toBinary, toBinary, qualified_toList, qualified_toList, segments_append, segments_append, cut,
    segments_nested nonempty clean, segments_nested_binary clean, List.append_assoc,
    List.append_assoc, List.singleton_append, List.singleton_append, ofSegments_fuse isType,
    ofSegments_fuse isType, joinSegments_nested nonempty]

/-- The binary name of a type nested in types of a package, spelled with points. -/
theorem toBinary_nestedIn {package : String} (isType : namesType first.toList = true)
    (clean : ∀ name ∈ first :: inner, '.' ∉ name.toList)
    (plain : ∀ segment ∈ segments '.' package.toList, namesType segment = false) :
    toBinary (nestedIn package "." (first :: inner)) = nestedIn package "$" (first :: inner) := by
  rw [nestedIn, nestedIn]
  split
  · exact toBinary_nested isType clean
  · rw [toBinary, qualified_toList, segments_append, ofSegments_nested isType clean,
      ofSegments_concat plain, joinSegments_concat (segments_ne_nil _ _), joinSegments_segments,
      ← qualified_toList, String.ofList_toList]

theorem nestedIn_singleton (package mark name : String) : nestedIn package mark [name] =
    if package.isEmpty then name else s!"{package}.{name}" := by
  have alone : nested mark [name] = name :=
    String.toList_injective (by simp [nested])
  rw [nestedIn, alone]

/-- One more type is nested in the last one. -/
theorem nestedIn_concat (package : String) (isMark : mark.toList = [separator])
    (nonempty : names ≠ []) (name : String) :
    s!"{nestedIn package mark names}{mark}{name}" = nestedIn package mark (names ++ [name]) := by
  have longer : nested mark names ++ mark ++ name = nested mark (names ++ [name]) := by
    apply String.toList_injective
    rw [String.toList_append, String.toList_append, nested_toList isMark, nested_toList isMark,
      List.map_append, List.map_singleton, joinSegments_concat (by simpa using nonempty), isMark,
      List.append_assoc]
    rfl
  change nestedIn package mark names ++ mark ++ name = _
  rw [nestedIn, nestedIn]
  split
  · exact longer
  · rw [← longer]
    change package ++ "." ++ nested mark names ++ mark ++ name =
      package ++ "." ++ (nested mark names ++ mark ++ name)
    simp only [String.append_assoc]

end Nested

end TypeName

end Correlate
