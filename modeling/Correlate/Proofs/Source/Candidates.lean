/-
Module: Correlate.Proofs.Source.Candidates
Purpose: The methods that a signature may denote are the first ones of a product.
Main exports: tuples, tuples_ordered, exists_choice_of_mem, methodCandidates_product,
  length_methodCandidates_le_iff
-/
import Mathlib.Algebra.BigOperators.Group.List.Basic
import Mathlib.Data.List.Forall2
import Mathlib.Data.List.ProdSigma
import Correlate.Proofs.Compiled.Signatures
import Correlate.Proofs.Grouping
import Correlate.Proofs.Spelling
import Correlate.Source.Resolver

namespace Correlate.Source

/-!
The product of the candidates is not formed as a whole: it grows parameter by parameter and is cut off
after each.  Since every spelling has a candidate, a partial signature that is cut off stands for
complete ones that come after the limit, so cutting early leaves the same as cutting once at the end.
-/

/-! ### Tuples -/

variable {α β : Type}

/-- All choices of one entry from each list, those that agree in the first entries beside each
other. -/
def tuples : List (List α) → List (List α)
  | [] => [[]]
  | entries :: rest => entries.flatMap fun entry => (tuples rest).map (entry :: ·)

theorem mem_tuples {lists : List (List α)} {tuple : List α} :
    tuple ∈ tuples lists ↔ List.Forall₂ (· ∈ ·) tuple lists := by
  induction lists generalizing tuple with
  | nil => simp [tuples]
  | cons entries rest inductionHypothesis =>
      cases tuple with
      | nil => simp [tuples]
      | cons entry others => simp [tuples, inductionHypothesis]

theorem length_tuples (lists : List (List α)) :
    (tuples lists).length = (lists.map List.length).prod := by
  induction lists with
  | nil => rfl
  | cons entries rest inductionHypothesis =>
      simp [tuples, List.length_flatMap, inductionHypothesis]

theorem tuples_ne_nil {lists : List (List α)} (inhabited : ∀ entries ∈ lists, entries ≠ []) :
    tuples lists ≠ [] := by
  induction lists with
  | nil => exact List.cons_ne_nil _ _
  | cons entries rest inductionHypothesis =>
      obtain ⟨first, others⟩ := List.forall_mem_cons.mp inhabited
      obtain ⟨entry, listed⟩ := List.exists_mem_of_ne_nil _ first
      obtain ⟨tuple, isTuple⟩ := List.exists_mem_of_ne_nil _ (inductionHypothesis others)
      exact List.ne_nil_of_mem (List.mem_flatMap.mpr ⟨entry, listed, List.mem_map_of_mem isTuple⟩)

theorem tuples_map (change : α → β) (lists : List (List α)) :
    tuples (lists.map (List.map change)) = (tuples lists).map (List.map change) := by
  induction lists with
  | nil => rfl
  | cons entries rest inductionHypothesis =>
      simp [tuples, inductionHypothesis, List.flatMap_map, List.map_flatMap, Function.comp_def]

theorem tuples_pairwise {before : α → α → Prop} {lists : List (List α)}
    (ordered : ∀ entries ∈ lists, entries.Pairwise before) :
    (tuples lists).Pairwise (List.Lex before) := by
  induction lists with
  | nil => exact List.pairwise_singleton _ _
  | cons entries rest inductionHypothesis =>
      obtain ⟨first, others⟩ := List.forall_mem_cons.mp ordered
      rw [tuples, List.pairwise_flatMap]
      refine ⟨fun entry _ => ?_, first.imp fun {entry next} earlier => ?_⟩
      · rw [List.pairwise_map]
        exact (inductionHypothesis others).imp fun earlier => .cons earlier
      · simp only [List.forall_mem_map]
        exact fun _ _ _ _ => .rel earlier

/-- The tuples with the place of every entry in its list. -/
def placedTuples (lists : List (List α)) : List (List (α × Nat)) :=
  tuples (lists.map List.zipIdx)

/-- The tuples stand in the lexicographic order of the places of their entries. -/
theorem tuples_ordered (lists : List (List α)) :
    tuples lists = (placedTuples lists).map (List.map Prod.fst) ∧
      (placedTuples lists).Pairwise (List.Lex fun entry next => entry.2 < next.2) := by
  constructor
  · rw [placedTuples, ← tuples_map, List.map_map]
    simp [Function.comp_def]
  · refine tuples_pairwise fun entries member => ?_
    obtain ⟨list, _, rfl⟩ := List.mem_map.mp member
    rw [← List.pairwise_map (f := Prod.snd), List.zipIdx_map_snd]
    exact List.pairwise_lt_range'

/-! ### Cutting off early -/

/-- Every partial signature with every choice of the parameter types that are missing. -/
def completions (signatures : List PartialSignature) (lists : List (List String)) :
    List PartialSignature :=
  signatures.flatMap fun signature =>
    (tuples lists).map fun rest => (signature.1, signature.2 ++ rest)

theorem completions_nil (signatures : List PartialSignature) : completions signatures [] = signatures := by
  simp [completions, tuples]

theorem completions_extend (signatures : List PartialSignature) (choices : List String)
    (rest : List (List String)) :
    completions (extendSignatures signatures choices) rest = completions signatures (choices :: rest) := by
  simp [completions, extendSignatures, tuples, List.flatMap_assoc, List.flatMap_map, List.map_flatMap,
    Function.comp_def]

theorem length_completions (signatures : List PartialSignature) (lists : List (List String)) :
    (completions signatures lists).length = signatures.length * (tuples lists).length := by
  simp [completions, List.length_flatMap]

/-- What comes from the first items is enough for the first results, if every item has a result. -/
theorem take_flatMap_take {results : α → List β} (some : ∀ item, results item ≠ []) (limit : Nat)
    (items : List α) :
    ((items.take limit).flatMap results).take limit = (items.flatMap results).take limit := by
  induction items generalizing limit with
  | nil => rw [List.take_nil]
  | cons item rest inductionHypothesis =>
      cases limit with
      | zero => rfl
      | succ limit =>
          rw [List.take_succ_cons, List.flatMap_cons, List.flatMap_cons, List.take_append,
            List.take_append]
          have left : limit + 1 - (results item).length ≤ limit := by
            have := List.length_pos_iff_ne_nil.mpr (some item)
            omega
          -- A shorter beginning of equal beginnings.
          have shorter := congrArg (List.take (limit + 1 - (results item).length))
            (inductionHypothesis limit)
          rw [List.take_take, List.take_take, Nat.min_eq_left left] at shorter
          rw [shorter]

theorem signatureProducts_eq {signatures : List PartialSignature} {lists : List (List String)}
    (inhabited : ∀ choices ∈ lists, choices ≠ [])
    (bounded : signatures.length ≤ maxSignatureCandidates ∨ lists ≠ []) :
    signatureProducts signatures lists =
      ((completions signatures lists).take maxSignatureCandidates,
        decide (maxSignatureCandidates < (completions signatures lists).length)) := by
  induction lists generalizing signatures with
  | nil =>
      have small := bounded.resolve_right fun nonempty => nonempty rfl
      rw [signatureProducts, completions_nil, List.take_of_length_le small,
        decide_eq_false (Nat.not_lt_of_le small)]
  | cons choices rest inductionHypothesis =>
      obtain ⟨_, others⟩ := List.forall_mem_cons.mp inhabited
      have someTuple := tuples_ne_nil others
      rw [← completions_extend, signatureProducts]
      generalize extendSignatures signatures choices = extended
      rw [inductionHypothesis others (.inl (List.length_take_le _ _))]
      dsimp only
      have products : (completions (extended.take maxSignatureCandidates) rest).take
          maxSignatureCandidates = (completions extended rest).take maxSignatureCandidates :=
        take_flatMap_take (fun _ => List.map_eq_nil_iff.not.mpr someTuple) _ _
      have sizes := List.length_pos_iff_ne_nil.mpr someTuple
      have truncated : (decide (maxSignatureCandidates <
            (completions (extended.take maxSignatureCandidates) rest).length) ||
          decide (maxSignatureCandidates < extended.length)) =
          decide (maxSignatureCandidates < (completions extended rest).length) := by
        rw [← Bool.decide_or, decide_eq_decide, length_completions, length_completions,
          List.length_take]
        -- If this step cuts something off, the whole product is too long as well.
        rcases Nat.lt_or_ge maxSignatureCandidates extended.length with long | short
        · have longer := Nat.le_mul_of_pos_right extended.length sizes
          exact iff_of_true (.inr long) (Nat.lt_of_lt_of_le long longer)
        · rw [Nat.min_eq_right short, or_iff_left (Nat.not_lt_of_le short)]
      rw [products, truncated]

/-- Cutting off adds nothing. -/
theorem signatureProducts_subset {signatures : List PartialSignature} {lists : List (List String)} :
    (signatureProducts signatures lists).1 ⊆ completions signatures lists := by
  induction lists generalizing signatures with
  | nil =>
      rw [completions_nil]
      exact List.Subset.refl _
  | cons choices rest inductionHypothesis =>
      intro signature isProduct
      obtain ⟨extended, kept, complete⟩ := List.mem_flatMap.mp (inductionHypothesis isProduct)
      rw [← completions_extend]
      exact List.mem_flatMap.mpr ⟨extended, List.mem_of_mem_take kept, complete⟩

/-! ### The candidates of a signature -/

namespace File

variable {file : File}

theorem resolveElement_ne_nil (file : File) (name : String) : file.resolveElement name ≠ [] := by
  unfold resolveElement
  split
  · exact List.cons_ne_nil _ _
  · split
    · exact List.cons_ne_nil _ _
    · split
      · exact List.cons_ne_nil _ _
      · exact List.cons_ne_nil _ _

/-- Every spelling may denote something. -/
theorem resolve_ne_nil (file : File) (spelling : Option String) : file.resolve spelling ≠ [] := by
  cases spelling with
  | none => exact List.cons_ne_nil _ _
  | some spelling =>
      obtain ⟨name, member⟩ := List.exists_mem_of_ne_nil _
        (file.resolveElement_ne_nil (TypeName.element (TypeName.simplify spelling)))
      exact List.ne_nil_of_mem (mem_distinct.mpr (List.mem_map_of_mem member))

/-- The return types and parameter types that a source signature may denote. -/
def signatureChoices (file : File) (returnType : Option String)
    (paramTypes : List (Option String)) : List PartialSignature :=
  file.resolve returnType ×ˢ tuples (paramTypes.map file.resolve)

/-- The choices are the tuples of the return type and the parameter types. -/
theorem map_signatureChoices (file : File) (returnType : Option String)
    (paramTypes : List (Option String)) :
    (file.signatureChoices returnType paramTypes).map (fun choice => choice.1 :: choice.2) =
      tuples ((returnType :: paramTypes).map file.resolve) := by
  simp only [signatureChoices, List.product, List.map_flatMap, List.map_map, List.map_cons, tuples,
    Function.comp_def, SProd.sprod]

theorem length_signatureChoices (file : File) (returnType : Option String)
    (paramTypes : List (Option String)) :
    (file.signatureChoices returnType paramTypes).length =
      ((returnType :: paramTypes).map fun spelling => (file.resolve spelling).length).prod := by
  rw [signatureChoices, List.length_product, length_tuples, List.map_map, List.map_cons,
    List.prod_cons]
  rfl

/-- Every candidate of a signature is the id of a choice of its types. -/
theorem exists_choice_of_mem {owner name id : String} {returnType : Option String}
    {paramTypes : List (Option String)}
    (member : id ∈ (file.methodCandidates owner returnType name paramTypes).ids) :
    ∃ choice ∈ file.signatureChoices returnType paramTypes,
      id = ({ name, returnType := choice.1, params := choice.2 } :
        Compiled.Signature).idIn owner := by
  obtain ⟨choice, isProduct, rfl⟩ := List.mem_map.mp (mem_distinct.mp member)
  have isChoice := signatureProducts_subset isProduct
  rw [completions, List.flatMap_map] at isChoice
  exact ⟨choice, isChoice, rfl⟩

/-- The candidates of a signature with parameters are the ids of the first choices of its types in
lexicographic order, and they are marked as truncated just where there are more choices than the
limit. -/
theorem methodCandidates_product (file : File) (owner name : String) (returnType : Option String)
    {paramTypes : List (Option String)} (nonempty : paramTypes ≠ []) :
    let choices := file.signatureChoices returnType paramTypes
    let placed := placedTuples ((returnType :: paramTypes).map file.resolve)
    let candidates := file.methodCandidates owner returnType name paramTypes
    candidates.ids = distinct ((choices.take (min choices.length maxSignatureCandidates)).map
        fun (returnType, params) =>
          ({ name, returnType, params } : Compiled.Signature).idIn owner) ∧
      candidates.ids.Nodup ∧
      (candidates.truncated = true ↔
        maxSignatureCandidates <
          ((returnType :: paramTypes).map fun spelling => (file.resolve spelling).length).prod) ∧
      choices.map (fun choice => choice.1 :: choice.2) = placed.map (List.map Prod.fst) ∧
      placed.Pairwise (List.Lex fun entry next => entry.2 < next.2) := by
  intro choices placed candidates
  have inhabited : ∀ entries ∈ paramTypes.map file.resolve, entries ≠ [] := by
    simp only [List.forall_mem_map]
    exact fun spelling _ => file.resolve_ne_nil spelling
  let returns : List PartialSignature := (file.resolve returnType).map fun type => (type, [])
  have complete : completions returns (paramTypes.map file.resolve) = choices := by
    rw [completions, List.flatMap_map]
    rfl
  have products : signatureProducts returns (paramTypes.map file.resolve) =
      (choices.take maxSignatureCandidates, decide (maxSignatureCandidates < choices.length)) := by
    rw [← complete]
    exact signatureProducts_eq inhabited (.inr (List.map_eq_nil_iff.not.mpr nonempty))
  obtain ⟨places, ordered⟩ := tuples_ordered ((returnType :: paramTypes).map file.resolve)
  refine ⟨?ids, nodup_distinct _, ?truncated, ?_, ordered⟩
  case ids =>
    show distinct (List.map _ (signatureProducts returns _).1) = _
    rw [products, Nat.min_comm, ← List.take_eq_take_min]
  case truncated =>
    show (signatureProducts returns _).2 = true ↔ _
    rw [products, decide_eq_true_iff, length_signatureChoices]
  · rw [← places]
    exact map_signatureChoices file returnType paramTypes

/-- A file that explains no names: every name may be in its package or not. -/
def packageFile : File := { path := "p/A.java", package := "p" }

/-- Thirteen parameters of two candidates each. -/
theorem methodCandidates_product_wide :
    let paramTypes := List.replicate 13 (some "X")
    let choices := packageFile.signatureChoices none paramTypes
    let candidates := packageFile.methodCandidates "p.A" none "f" paramTypes
    paramTypes ≠ [] ∧ candidates.truncated = true ∧
      candidates.ids = distinct ((choices.take (min choices.length maxSignatureCandidates)).map
        fun (returnType, params) =>
          ({ name := "f", returnType, params } : Compiled.Signature).idIn "p.A") := by
  have nonempty : List.replicate 13 (some "X") ≠ [] := List.cons_ne_nil _ _
  obtain ⟨ids, _, truncated, _⟩ := packageFile.methodCandidates_product "p.A" "f" none nonempty
  exact ⟨nonempty, truncated.mpr (by decide +kernel), ids⟩

example : (packageFile.methodCandidates "p.A" none "f" [some "X", some "Y"]).ids =
    ["<p.A: void f(X,Y)>", "<p.A: void f(X,p.Y)>", "<p.A: void f(p.X,Y)>",
      "<p.A: void f(p.X,p.Y)>"] := by
  decide +kernel

/-! ### The number of candidates -/

theorem nodup_resolve (file : File) (spelling : Option String) :
    (file.resolve spelling).Nodup := by
  cases spelling with
  | none => exact List.nodup_singleton _
  | some spelling => exact nodup_distinct _

/-- Methods that differ only in their return types have different ids. -/
theorem idIn_returnType_injective (owner name : String) (params : List String) :
    Function.Injective fun returnType =>
      ({ name, returnType, params } : Compiled.Signature).idIn owner := by
  intro one other same
  have texts := congrArg String.toList same
  simp only [Compiled.Signature.idIn_toList, List.cons.injEq, true_and,
    List.append_cancel_left_eq] at texts
  exact String.toList_injective (List.append_cancel_right texts)

/-- Without parameters nothing is cut off: every return type has its candidate. -/
theorem methodCandidates_nil (file : File) (owner name : String) (returnType : Option String) :
    file.methodCandidates owner returnType name [] =
      { ids := (file.resolve returnType).map fun returnType =>
          ({ name, returnType, params := [] } : Compiled.Signature).idIn owner
        truncated := false } := by
  have ids_nodup := (file.nodup_resolve returnType).map (idIn_returnType_injective owner name [])
  simp only [methodCandidates, List.map_nil, signatureProducts, List.map_map, Function.comp_def]
  rw [distinct_of_nodup ids_nodup]

/-- There are no more candidates than the limit just where the signature has a parameter or its
return type has no more candidates than that.  Without parameters nothing is marked as truncated. -/
theorem length_methodCandidates_le_iff (file : File) (owner name : String)
    (returnType : Option String) (paramTypes : List (Option String)) :
    ((file.methodCandidates owner returnType name paramTypes).ids.length ≤ maxSignatureCandidates ↔
      paramTypes ≠ [] ∨ (file.resolve returnType).length ≤ maxSignatureCandidates) ∧
    (file.methodCandidates owner returnType name []).truncated = false := by
  refine ⟨?_, by rw [methodCandidates_nil]⟩
  by_cases empty : paramTypes = []
  · rw [empty, methodCandidates_nil, List.length_map]
    simp
  · refine iff_of_true ?_ (.inl empty)
    have inhabited : ∀ entries ∈ paramTypes.map file.resolve, entries ≠ [] := by
      simp only [List.forall_mem_map]
      exact fun spelling _ => file.resolve_ne_nil spelling
    refine (length_distinct_le _).trans ?_
    -- Each parameter cuts off, so the last one does.
    rw [List.length_map, signatureProducts_eq inhabited (.inr (List.map_eq_nil_iff.not.mpr empty))]
    exact List.length_take_le _ _

def packageName (i : Nat) : String := s!"p{i}"

/-- A file that imports all types of so many packages. -/
def crowdedFile (count : Nat) : File :=
  { path := "A.src.json", package := ""
    imports := (List.range count).map fun i =>
      { name := packageName i, isStatic := false, isWildcard := true, position := none } }

theorem toBinary_crowded (i : Nat) : (TypeName.toBinary (packageName i ++ "." ++ "X")).toList =
    'p' :: (Nat.toDigits 10 i ++ ['.', 'X']) := by
  have written : (packageName i ++ "." ++ "X").toList =
      ('p' :: Nat.toDigits 10 i) ++ '.' :: ['X'] := by
    change ("p" ++ toString i ++ "." ++ "X").toList = _
    simp [Nat.toString_eq_repr]
  have clean : '.' ∉ 'p' :: Nat.toDigits 10 i := by
    rw [List.mem_cons, not_or]
    exact ⟨by decide, fun member =>
      absurd (Nat.isDigit_of_mem_toDigits (by decide) (by decide) member) (by decide)⟩
  rw [TypeName.toBinary, String.toList_ofList, written, Text.segments_append,
    Text.segments_of_not_mem clean]
  rfl

/-- A name that no declaration explains may be in each of the packages, or in none. -/
theorem resolveElement_crowdedFile (count : Nat) : (crowdedFile count).resolveElement "X" =
    "X" :: (List.range count).map fun i => TypeName.toBinary (packageName i ++ "." ++ "X") := by
  have no_type : (crowdedFile count).localType? "X" = none := rfl
  have none_single : (crowdedFile count).imports.filter Import.isSingleType = [] := by
    simp [crowdedFile, List.filter_eq_nil_iff, Import.isSingleType]
  have all_wildcards : (crowdedFile count).imports.filter Import.isTypeWildcard =
      (crowdedFile count).imports := by
    simp [crowdedFile, List.filter_eq_self, Import.isTypeWildcard]
  have itself : TypeName.toBinary "X" = "X" := by decide +kernel
  have imported :
      (crowdedFile count).imports.map (fun declaration => declaration.name ++ "." ++ "X") =
        (List.range count).map fun i => packageName i ++ "." ++ "X" := by
    rw [crowdedFile, List.map_map]
    rfl
  rw [resolveElement, if_neg (by decide +kernel), no_type, none_single, List.findSome?_nil]
  change TypeName.toBinary "X" :: (((crowdedFile count).imports.filter Import.isTypeWildcard).map
    fun declaration => declaration.name ++ "." ++ "X").map TypeName.toBinary = _
  rw [itself, all_wildcards, imported, List.map_map]
  rfl

theorem nodup_resolveElement_crowdedFile (count : Nat) :
    ((crowdedFile count).resolveElement "X").Nodup := by
  rw [resolveElement_crowdedFile, List.nodup_cons]
  constructor
  · intro member
    obtain ⟨i, -, same⟩ := List.mem_map.mp member
    have texts := congrArg String.toList same
    rw [toBinary_crowded] at texts
    exact absurd (List.cons.inj texts).1 (by decide)
  · refine List.nodup_range.map fun i j same => ?_
    have texts := congrArg String.toList same
    rw [toBinary_crowded, toBinary_crowded] at texts
    exact Compiled.toDigits_injective (List.append_cancel_right (List.cons.inj texts).2)

theorem length_resolve_crowdedFile (count : Nat) :
    ((crowdedFile count).resolve (some "X")).length = count + 1 := by
  have element : TypeName.element (TypeName.simplify "X") = "X" := by decide +kernel
  have dimensions : TypeName.dimensions (TypeName.simplify "X") = "" := by decide +kernel
  rw [resolve]
  simp only [element, dimensions, String.append_empty, List.map_id']
  rw [distinct_of_nodup (nodup_resolveElement_crowdedFile count), resolveElement_crowdedFile,
    List.length_cons, List.length_map, List.length_range]

/-- With as many packages as the limit allows there is one candidate too many, the name itself. -/
theorem length_methodCandidates_crowded :
    ¬ ((crowdedFile maxSignatureCandidates).methodCandidates "A" (some "X") "f" []).ids.length ≤
      maxSignatureCandidates := by
  rw [methodCandidates_nil, List.length_map, length_resolve_crowdedFile]
  exact Nat.not_succ_le_self _

end File

end Correlate.Source
