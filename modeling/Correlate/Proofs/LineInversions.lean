/-
Module: Correlate.Proofs.LineInversions
Purpose: The check of the order of lines is exact.  It reports the least inversion, by the places
  of the elements among all that are paired, and passes only where there is none.
Main exports: ContradictAt, InvertedAt, firstInversion_exact
-/
import Correlate.Proofs.Matching.Order

namespace Correlate.Matching

/-!
Pairs with an unknown line are left out before pairs are compared, but their places still count.
What carries the proof is how the pairs that are left know their places: they stand in the order of
these, and the one with place `k` has the lines that stand at `k` in the whole list.
-/

/-! ### Places -/

/-- Pairs in the order of their places. -/
def Ascending (pairs : List LinedPair) : Prop :=
  pairs.Pairwise fun one other => one.index < other.index

theorem linedPairs_ascending (index : Nat) (lines : List (Option Nat × Option Nat)) :
    Ascending (linedPairs index lines) := by
  fun_induction linedPairs index lines with
  | case1 => exact .nil
  | case2 index sourceLine compiledLine rest inductionHypothesis =>
      refine .cons (fun other member => ?_) inductionHypothesis
      obtain ⟨k, place, _⟩ := mem_linedPairs.mp member
      show index < other.index
      omega
  | case3 index first rest unlined inductionHypothesis => exact inductionHypothesis

/-! ### The least contradiction -/

/-- Of the pairs, one with place `i` and a later one with place `j` contradict each other. -/
def ContradictAt (pairs : List LinedPair) (i j : Nat) : Prop :=
  i < j ∧ ∃ one ∈ pairs, ∃ other ∈ pairs,
    one.index = i ∧ other.index = j ∧ one.contradicts other = true

/-- Of two places, the first comes before the other or is the same with a partner no later. -/
def NoLater (i j k l : Nat) : Prop :=
  i < k ∨ i = k ∧ j ≤ l

theorem NoLater.antisymm {i j k l : Nat} (one : NoLater i j k l) (other : NoLater k l i j) :
    (i, j) = (k, l) := by
  unfold NoLater at one other
  exact Prod.ext (by omega) (by omega)

/-- A contradiction is found among the pairs that begin with `first` either with `first` itself or
among the others. -/
theorem ContradictAt.cons_iff {first : LinedPair} {rest : List LinedPair} {i j : Nat}
    (ascending : Ascending (first :: rest)) :
    ContradictAt (first :: rest) i j ↔
      (first.index = i ∧ ∃ other ∈ rest, other.index = j ∧ first.contradicts other = true) ∨
        ContradictAt rest i j := by
  obtain ⟨isFirst, _⟩ := List.pairwise_cons.mp ascending
  constructor
  · rintro ⟨before, one, isOne, other, isOther, rfl, rfl, contradict⟩
    have inRest : other ∈ rest := by
      rcases List.mem_cons.mp isOther with rfl | inRest
      · rcases List.mem_cons.mp isOne with rfl | later
        · exact absurd before (Nat.lt_irrefl _)
        · exact absurd before (Nat.lt_asymm (isFirst one later))
      · exact inRest
    rcases List.mem_cons.mp isOne with rfl | later
    · exact .inl ⟨rfl, other, inRest, rfl, contradict⟩
    · exact .inr ⟨before, one, later, other, inRest, rfl, rfl, contradict⟩
  · rintro (⟨rfl, other, inRest, rfl, contradict⟩ | ⟨before, one, isOne, other, isOther, places⟩)
    · exact ⟨isFirst other inRest, first, List.mem_cons_self, other,
        List.mem_cons_of_mem _ inRest, rfl, rfl, contradict⟩
    · exact ⟨before, one, List.mem_cons_of_mem _ isOne, other, List.mem_cons_of_mem _ isOther,
        places⟩

/-- The contradiction that is found is the least one. -/
theorem contradictAt_of_some {pairs : List LinedPair} (ascending : Ascending pairs) {i j : Nat}
    (found : firstContradiction? pairs = some (i, j)) :
    ContradictAt pairs i j ∧ ∀ k l, ContradictAt pairs k l → NoLater i j k l := by
  induction pairs with
  | nil => cases found
  | cons first rest inductionHypothesis =>
      obtain ⟨isFirst, restAscending⟩ := List.pairwise_cons.mp ascending
      unfold firstContradiction? at found
      simp only [ContradictAt.cons_iff ascending]
      split at found
      · next other isOther =>
        obtain ⟨rfl, rfl⟩ := Prod.mk.inj (Option.some.inj found)
        obtain ⟨contradict, before, after, rfl, agreed⟩ := List.find?_eq_some_iff_append.mp isOther
        refine ⟨.inl ⟨rfl, other, by simp, rfl, contradict⟩, ?_⟩
        rintro k l (⟨rfl, rival, isRival, rfl, contradicts⟩ | ⟨_, one, isOne, _, _, rfl, _⟩)
        · -- The search takes the first of the pairs that contradict, and they ascend.
          refine .inr ⟨rfl, ?_⟩
          rcases List.mem_append.mp isRival with sooner | later
          · exact absurd contradicts (by simpa using agreed rival sooner)
          · rcases List.mem_cons.mp later with rfl | later
            · exact Nat.le_refl _
            · have sorted := (List.pairwise_append.mp restAscending).2.1
              exact Nat.le_of_lt ((List.pairwise_cons.mp sorted).1 rival later)
        · exact .inl (isFirst one isOne)
      · next agreed =>
        obtain ⟨contradict, least⟩ := inductionHypothesis restAscending found
        refine ⟨.inr contradict, ?_⟩
        rintro k l (⟨_, rival, isRival, _, contradicts⟩ | later)
        · exact absurd contradicts (List.find?_eq_none.mp agreed rival isRival)
        · exact least k l later

/-! ### The least inversion -/

/-- The elements at places `i` and `j`, the second one later, come in opposite orders.  The lines of
all four are known. -/
def InvertedAt (pool : Compiled.Pool) (file : Source.File) (sources : List Source.Ref)
    (compiled : List Compiled.Ref) (i j : Nat) : Prop :=
  i < j ∧ ∃ first second firstOther secondOther,
    sources[i]? = some first ∧ sources[j]? = some second ∧
      compiled[i]? = some firstOther ∧ compiled[j]? = some secondOther ∧
      (Inverted pool file (first, firstOther) (second, secondOther) ∨
        Inverted pool file (second, secondOther) (first, firstOther))

/-- A pair that is left comes from the elements at its place. -/
theorem mem_linedPairs_zip {pool : Compiled.Pool} {file : Source.File} {sources : List Source.Ref}
    {compiled : List Compiled.Ref} {pair : LinedPair} :
    pair ∈ linedPairs 0 (pairLines file pool (sources.zip compiled)) ↔
      ∃ own other, sources[pair.index]? = some own ∧ compiled[pair.index]? = some other ∧
        file.startLine? own = some pair.sourceLine ∧
        pool.elementLine other = some pair.compiledLine := by
  rw [mem_linedPairs]
  constructor
  · rintro ⟨k, place, stands⟩
    obtain rfl : pair.index = k := place.trans (Nat.zero_add k)
    rw [pairLines, List.getElem?_map] at stands
    obtain ⟨⟨own, other⟩, zipped, lines⟩ := Option.map_eq_some_iff.mp stands
    obtain ⟨isOwn, isOther⟩ := List.getElem?_zip_eq_some.mp zipped
    obtain ⟨line, compiledLine⟩ := Prod.mk.inj lines
    exact ⟨own, other, isOwn, isOther, line, compiledLine⟩
  · rintro ⟨own, other, isOwn, isOther, line, compiledLine⟩
    have zipped : (sources.zip compiled)[pair.index]? = some (own, other) :=
      List.getElem?_zip_eq_some.mpr ⟨isOwn, isOther⟩
    refine ⟨pair.index, (Nat.zero_add _).symm, ?_⟩
    rw [pairLines, List.getElem?_map, zipped, Option.map_some]
    exact congrArg some (Prod.ext line compiledLine)

/-- The pairs that contradict each other are the elements that come in opposite orders. -/
theorem contradictAt_linedPairs {pool : Compiled.Pool} {file : Source.File}
    {sources : List Source.Ref} {compiled : List Compiled.Ref} {i j : Nat} :
    ContradictAt (linedPairs 0 (pairLines file pool (sources.zip compiled))) i j ↔
      InvertedAt pool file sources compiled i j := by
  constructor
  · rintro ⟨before, one, isOne, other, isOther, rfl, rfl, contradict⟩
    obtain ⟨first, firstOther, isFirst, isFirstOther, firstLine, firstCompiled⟩ :=
      mem_linedPairs_zip.mp isOne
    obtain ⟨second, secondOther, isSecond, isSecondOther, secondLine, secondCompiled⟩ :=
      mem_linedPairs_zip.mp isOther
    refine ⟨before, first, second, firstOther, secondOther, isFirst, isSecond, isFirstOther,
      isSecondOther, ?_⟩
    simp only [LinedPair.contradicts, Bool.or_eq_true, Bool.and_eq_true, decide_eq_true_eq]
      at contradict
    exact contradict.imp
      (fun inverted =>
        ⟨_, _, _, _, firstLine, secondLine, firstCompiled, secondCompiled, inverted⟩)
      (fun inverted =>
        ⟨_, _, _, _, secondLine, firstLine, secondCompiled, firstCompiled, inverted⟩)
  · rintro ⟨before, first, second, firstOther, secondOther, isFirst, isSecond, isFirstOther,
      isSecondOther, inverted⟩
    -- Both orders name the same four lines.
    have placed {line other compiledLine compiledOther : Nat}
        (isLine : file.startLine? first = some line)
        (isOther : file.startLine? second = some other)
        (isCompiled : pool.elementLine firstOther = some compiledLine)
        (isCompiledOther : pool.elementLine secondOther = some compiledOther)
        (contradict : (LinedPair.mk i line compiledLine).contradicts ⟨j, other, compiledOther⟩ = true) :
        ContradictAt (linedPairs 0 (pairLines file pool (sources.zip compiled))) i j :=
      ⟨before, ⟨i, line, compiledLine⟩,
        mem_linedPairs_zip.mpr ⟨_, _, isFirst, isFirstOther, isLine, isCompiled⟩,
        ⟨j, other, compiledOther⟩,
        mem_linedPairs_zip.mpr ⟨_, _, isSecond, isSecondOther, isOther, isCompiledOther⟩,
        rfl, rfl, contradict⟩
    rcases inverted with
      ⟨_, _, _, _, firstLine, secondLine, firstCompiled, secondCompiled, sooner, later⟩ |
      ⟨_, _, _, _, secondLine, firstLine, secondCompiled, firstCompiled, sooner, later⟩
    · exact placed firstLine secondLine firstCompiled secondCompiled
        (by simp [LinedPair.contradicts, sooner, later])
    · exact placed firstLine secondLine firstCompiled secondCompiled
        (by simp [LinedPair.contradicts, sooner, later])

/-- The check of the order of lines passes exactly if no two elements come in opposite orders.
Otherwise it reports the least two places at which elements do. -/
theorem firstInversion_exact (pool : Compiled.Pool) (file : Source.File)
    (sources : List Source.Ref) (compiled : List Compiled.Ref) :
    (firstInversion? (pairLines file pool (sources.zip compiled)) = none ↔
      ∀ i j, ¬ InvertedAt pool file sources compiled i j) ∧
    ∀ i j, firstInversion? (pairLines file pool (sources.zip compiled)) = some (i, j) ↔
      InvertedAt pool file sources compiled i j ∧
        ∀ k l, InvertedAt pool file sources compiled k l → NoLater i j k l := by
  simp only [← contradictAt_linedPairs]
  have ascending := linedPairs_ascending 0 (pairLines file pool (sources.zip compiled))
  cases outcome : firstInversion? (pairLines file pool (sources.zip compiled)) with
  | none =>
      have free (i j : Nat) :
          ¬ ContradictAt (linedPairs 0 (pairLines file pool (sources.zip compiled))) i j := by
        rintro ⟨_, one, isOne, other, isOther, _, _, contradict⟩
        exact absurd contradict (Bool.eq_false_iff.mp (not_contradicts_of_none outcome isOne isOther))
      exact ⟨iff_of_true rfl free, fun i j =>
        iff_of_false nofun fun ⟨contradict, _⟩ => free i j contradict⟩
  | some places =>
      obtain ⟨contradict, least⟩ := contradictAt_of_some ascending outcome
      refine ⟨iff_of_false nofun fun free => free _ _ contradict, fun i j => ?_⟩
      constructor
      · rintro ⟨⟩
        exact ⟨contradict, least⟩
      · rintro ⟨other, leastOther⟩
        exact congrArg some ((least i j other).antisymm (leastOther _ _ contradict))

/-- The two places are counted among all pairs, here past two that lack a line. -/
example : firstInversion? [(some 1, some 9), (none, some 3), (some 5, none), (some 2, some 4)] =
    some (0, 3) := by
  decide

end Correlate.Matching
