/-
Module: Correlate.Proofs.Lossiness
Purpose: What a lossy run keeps of the links of a strict one.
Main exports: Plan.withLossy, Outcome.Paired, Overtaken, run_lossy_keeps
-/
import Mathlib.Data.List.Induction
import Correlate.Proofs.Compatibility
import Correlate.Proofs.Matching.AbreastTypes
import Correlate.Proofs.Matching.Runs

namespace Correlate.Matching

/-!
A lossy run pairs more allocations with compiled allocations than a strict one.  Where a source has
arrays of several dimensions, these may be the very arrays whose creation was compiled to a call.  Then
fewer of them are open when the calls are dealt out, their number no longer agrees with that of the
calls, and none of them gets a call.  Nothing else is lost.
-/

/-- The same run, lossy or strict. -/
def Plan.withLossy (plan : Plan) (lossy : Bool) : Plan :=
  { plan with options := { plan.options with lossy } }

/-- A strict and a lossy run have matched the same files.  What they share is taken in both or in
none. -/
structure Outcome.Paired (pool : Compiled.Pool) (files : List Source.File)
    (strict lossy : Outcome) : Prop where
  alike : ∀ element, Shared pool noneOf element →
    strict.ledger.registry.isConsumed element = lossy.ledger.registry.isConsumed element
  abreast : ∀ (i : Nat) file, files[i]? = some file → ∃ strictFinal lossyFinal : State,
    strict.files[i]? = some strictFinal.file ∧ lossy.files[i]? = some lossyFinal.file ∧
      Abreast pool file noneOf noneOf strictFinal lossyFinal

section Runs

variable {plan : Plan} {files : List Source.File} {strict lossy : Outcome} {file : Source.File}

/-- Both runs open a file without links. -/
theorem Outcome.Paired.open_beside (paired : Outcome.Paired plan.pool files strict lossy)
    (poolFormed : plan.pool.WellFormed) (strictSound : strict.Sound (plan.withLossy false) files)
    (lossySound : lossy.Sound (plan.withLossy true) files) (formed : file.WellFormed)
    (unlinked : ∀ element, file.isLinked element = false) :
    Beside ((plan.withLossy false).setting strict.files.length) lossy.files.length strict.files
      lossy.files file (strict.open file) (lossy.open file) where
  abreast :=
    { strictExtends := .refl file
      lossyExtends := .refl file
      pairs := rfl
      links := fun _ _ _ => rfl
      alike := paired.alike
      strictMethods := fun _ _ => rfl
      lossyMethods := fun _ _ => rfl
      ahead := fun _ => False.elim
      kept := fun own _ _ found =>
        absurd found (Source.File.not_link_of_unlinked (unlinked own.ref)) }
  strictSound := strictSound.open_sound poolFormed formed unlinked
  lossySound := @Outcome.Sound.open_sound (plan.withLossy true) _ _ _ poolFormed lossySound formed
    unlinked
  strictPristine := ⟨fun _ _ => rfl, fun _ _ => rfl⟩
  lossyPristine := ⟨fun _ _ => rfl, fun _ _ => rfl⟩

/-- Both runs match the next file. -/
theorem Outcome.Paired.matchFile (paired : Outcome.Paired plan.pool files strict lossy)
    (poolFormed : plan.pool.WellFormed) (strictSound : strict.Sound (plan.withLossy false) files)
    (lossySound : lossy.Sound (plan.withLossy true) files) (formed : file.WellFormed)
    (unlinked : ∀ element, file.isLinked element = false) :
    Outcome.Paired plan.pool (files ++ [file])
      (Matching.matchFile (plan.withLossy false) strict file)
      (Matching.matchFile (plan.withLossy true) lossy file) := by
  have start := paired.open_beside poolFormed strictSound lossySound formed unlinked
  have final := (start.matchTypes formed rfl).abreast
  constructor
  case alike => exact final.alike
  case abreast =>
    intro i given found
    rcases Nat.lt_trichotomy i files.length with earlier | rfl | later
    · rw [List.getElem?_append_left earlier] at found
      obtain ⟨strictFinal, lossyFinal, isStrict, isLossy, abreast⟩ := paired.abreast i given found
      refine ⟨strictFinal, lossyFinal, ?_, ?_, abreast⟩
      · exact (List.getElem?_append_left (strictSound.length ▸ earlier)).trans isStrict
      · exact (List.getElem?_append_left (lossySound.length ▸ earlier)).trans isLossy
    · rw [List.getElem?_append_right (Nat.le_refl _), Nat.sub_self] at found
      obtain rfl := Option.some.inj found
      refine ⟨_, _, ?_, ?_, final⟩
      · rw [← strictSound.length]
        exact (List.getElem?_append_right (Nat.le_refl _)).trans (by rw [Nat.sub_self]; rfl)
      · rw [← lossySound.length]
        exact (List.getElem?_append_right (Nat.le_refl _)).trans (by rw [Nat.sub_self]; rfl)
    · have unknown : (files ++ [file]).length ≤ i := by
        rw [List.length_append]
        exact later
      rw [List.getElem?_eq_none unknown] at found
      cases found

/-- Both runs match all files. -/
theorem foldl_paired (built : plan.pool.IsBuilt) (reachable : ∀ file ∈ files, file.Reachable)
    (unlinked : ∀ file ∈ files, ∀ element, file.isLinked element = false) :
    Outcome.Paired plan.pool files (files.foldl (Matching.matchFile (plan.withLossy false)) {})
      (files.foldl (Matching.matchFile (plan.withLossy true)) {}) := by
  induction files using List.reverseRecOn with
  | nil =>
      rw [List.foldl_nil, List.foldl_nil]
      exact ⟨fun _ _ => rfl, nofun⟩
  | append_singleton before file inductionHypothesis =>
      have earlierReachable : ∀ earlier ∈ before, earlier.Reachable :=
        fun earlier member => reachable earlier (List.mem_append_left _ member)
      have earlierUnlinked : ∀ earlier ∈ before, ∀ element, earlier.isLinked element = false :=
        fun earlier member => unlinked earlier (List.mem_append_left _ member)
      have last : file ∈ before ++ [file] := List.mem_append_right _ (List.mem_singleton_self _)
      simp only [List.foldl_append, List.foldl_cons, List.foldl_nil]
      exact (inductionHypothesis earlierReachable earlierUnlinked).matchFile built.wellFormed
        (@foldl_sound (plan.withLossy false) before built earlierReachable earlierUnlinked)
        (@foldl_sound (plan.withLossy true) before built earlierReachable earlierUnlinked)
        (reachable file last).wellFormed (unlinked file last)

/-! ### What is lost -/

/-- The strict run links an array of several dimensions to a call that creates an array, and the lossy
run links such an array of the same method to a compiled allocation instead. -/
structure Overtaken (pool : Compiled.Pool) (strict lossy : Source.File) (element : Source.Ref)
    (link : Source.Link) : Prop where
  array : ∃ own : Source.Handle .allocation, element = own.ref ∧
    1 < (strict.allocationAt own).dimensions
  creates : CreatesArray pool link.compiled
  displaced : ∃ other : Source.Handle .allocation, 1 < (strict.allocationAt other).dimensions ∧
    strict.owningMethod? other = strict.owningMethod? element ∧ Displaced strict lossy other

/-- An allocation that is linked to a call creates an array of several dimensions, and so does the
call. -/
theorem Fitted.array_of_call {setting : Setting} {file : Source.File} (fitted : Fitted setting file)
    {own : Source.Handle .allocation} {link : Source.Link} (found : file.link? own = some link)
    (toCall : link.compiled.kind = .invocation) :
    1 < (file.allocationAt own).dimensions ∧ CreatesArray setting.pool link.compiled := by
  obtain ⟨_, _, _, fits⟩ := (fitted.fits own link found).of_statement ⟨nofun, nofun, nofun⟩
  generalize isOwn : own.ref = element at fits
  generalize link.compiled = other at toCall fits
  cases fits with
  | @arrayCall allocation _ _ _ several creates =>
      obtain rfl : own = allocation := ref_injective isOwn
      exact ⟨several, rfl, creates⟩
  | allocation | standInAllocation => cases toCall
  | receiver | param | call | access | outerThis | cast | reference | standInCall => cases isOwn

/-- A lossy run keeps every link of an authoritative element that the strict run makes.  It may lose
those of arrays of several dimensions to calls that create arrays, and only where it has linked an array
of the same method, which the strict run links to such a call, to a compiled allocation. -/
theorem run_lossy_keeps (built : plan.pool.IsBuilt) (reachable : ∀ file ∈ files, file.Reachable)
    (unlinked : ∀ file ∈ files, ∀ element, file.isLinked element = false) {i : Nat}
    {strict : Source.File} (found : (run (plan.withLossy false) files).files[i]? = some strict)
    {element : Source.Ref} {link : Source.Link} (linked : strict.link? element = some link)
    (authoritative : strict.isAuthoritative element = true) :
    ∃ lossy, (run (plan.withLossy true) files).files[i]? = some lossy ∧
      (lossy.link? element = some link ∨ Overtaken plan.pool strict lossy element link) := by
  have sound := @foldl_sound (plan.withLossy false) files built reachable unlinked
  have bound : i < files.length := sound.length ▸ (List.getElem?_eq_some_iff.mp found).1
  obtain ⟨strictFinal, lossyFinal, isStrict, isLossy, abreast⟩ :=
    (foldl_paired built reachable unlinked).abreast i _ (List.getElem?_eq_getElem bound)
  obtain rfl := Option.some.inj (isStrict.symm.trans found)
  have fitted := sound.fitted i _ (List.mem_of_getElem? isStrict)
  have known := abreast.strictExtends.known_of_authoritative
    (fitted.formed.linked element (Source.File.isLinked_of_link linked)) authoritative
  refine ⟨lossyFinal.file, isLossy, ?_⟩
  by_cases isAllocation : element.kind = .allocation
  · obtain ⟨kind, place⟩ := element
    obtain rfl : kind = .allocation := isAllocation
    refine (abreast.kept ⟨place⟩ known link linked).imp_right ?_
    rintro ⟨_, toCall, other, otherKnown, owner, displaced⟩
    have extended := abreast.strictExtends
    obtain ⟨several, creates⟩ := @Fitted.array_of_call _ _ fitted ⟨place⟩ _ linked toCall
    have ⟨⟨call, called, isCall⟩, _⟩ := displaced
    refine ⟨⟨⟨place⟩, rfl, several⟩, creates, other, (fitted.array_of_call called isCall).1, ?_,
      displaced⟩
    exact (extended.owningMethod otherKnown).trans (owner.trans (extended.owningMethod known).symm)
  · exact .inl ((abreast.links element known isAllocation).symm.trans linked)

end Runs

/-- A method that creates an array on line 5, and calls for arrays on lines 5 and 6. -/
def arraysPlan : Plan :=
  let create : Compiled.Signature :=
    { name := "newInstance", params := ["java.lang.Class", "int[]"], returnType := "java.lang.Object" }
  let steps : List Compiled.Step :=
    [.type "a.B", .method ⟨0⟩ { name := "m", params := [], returnType := "void" } {},
      .allocation ⟨0⟩ "int[][]" (some 5), .invocation ⟨0⟩ "java.lang.reflect.Array" create (some 5),
      .invocation ⟨0⟩ "java.lang.reflect.Array" create (some 6)]
  { pool := (({} : Compiled.Builder).performAll steps).1.finish.pool }

/-- The source of the method, with arrays of two dimensions on lines 5 and 6. -/
def arraysFile : Source.File :=
  ({ path := "B.java", package := "a" } : Source.File).performAll
    [.type "B" none none, .method ⟨0⟩ "m" none false none,
      .allocation ⟨1⟩ "int[][]" 2 (some (.wholeLine 5)) none,
      .allocation ⟨1⟩ "int[][]" 2 (some (.wholeLine 6)) none]

theorem arraysPlan_isBuilt : arraysPlan.pool.IsBuilt := by
  refine ⟨_, Compiled.Builder.Reachable.empty.performAll ?admitted, rfl⟩
  exact ⟨trivial, Nat.zero_lt_one, Nat.zero_lt_one, Nat.zero_lt_one, Nat.zero_lt_one, trivial⟩

theorem arraysFile_reachable : ∀ file ∈ [arraysFile], file.Reachable := by
  refine List.forall_mem_singleton.mpr ?_
  refine (Source.File.Reachable.empty "B.java" "a").performAll ?known
  exact ⟨nofun, Nat.zero_lt_one, ⟨Nat.one_lt_two, nofun⟩, ⟨Nat.one_lt_two, nofun⟩, trivial⟩

theorem arraysFile_unlinked : ∀ file ∈ [arraysFile], ∀ element, file.isLinked element = false :=
  List.forall_mem_singleton.mpr fun _ => rfl

/-- The file after a run. -/
def arraysResult (lossy : Bool) : Source.File :=
  (run (arraysPlan.withLossy lossy) [arraysFile]).files.headD default

theorem arraysResult_found (lossy : Bool) :
    (run (arraysPlan.withLossy lossy) [arraysFile]).files[0]? = some (arraysResult lossy) :=
  @headD_getElem?_run (arraysPlan.withLossy lossy) _ arraysPlan_isBuilt arraysFile_reachable
    arraysFile_unlinked

/-- The lossy run keeps the link of the method, and that of the second array is overtaken. -/
theorem run_lossy_keeps_arrays :
    (∃ link, (arraysResult false).link? ⟨.method, 1⟩ = some link ∧
      (arraysResult true).link? ⟨.method, 1⟩ = some link) ∧
    ∃ link, (arraysResult false).link? ⟨.allocation, 1⟩ = some link ∧
      Overtaken arraysPlan.pool (arraysResult false) (arraysResult true) ⟨.allocation, 1⟩ link := by
  have method : (arraysResult false).isLinked ⟨.method, 1⟩ = true := by decide +kernel
  have array : (arraysResult false).isLinked ⟨.allocation, 1⟩ = true := by decide +kernel
  constructor
  · obtain ⟨link, isLink⟩ := Source.File.exists_link method
    obtain ⟨lossy, isLossy, kept⟩ := run_lossy_keeps arraysPlan_isBuilt arraysFile_reachable
      arraysFile_unlinked (arraysResult_found false) isLink (by decide +kernel)
    obtain rfl := Option.some.inj ((arraysResult_found true).symm.trans isLossy)
    refine ⟨link, isLink, kept.resolve_right ?_⟩
    rintro ⟨⟨_, isArray, _⟩, _, _⟩
    cases isArray
  · obtain ⟨link, isLink⟩ := Source.File.exists_link array
    obtain ⟨lossy, isLossy, kept⟩ := run_lossy_keeps arraysPlan_isBuilt arraysFile_reachable
      arraysFile_unlinked (arraysResult_found false) isLink (by decide +kernel)
    obtain rfl := Option.some.inj ((arraysResult_found true).symm.trans isLossy)
    have lost : (arraysResult true).isLinked ⟨.allocation, 1⟩ = false := by decide +kernel
    exact ⟨link, isLink, kept.resolve_left (Source.File.not_link_of_unlinked lost)⟩

/-- The strict run matches both arrays with the calls.  The lossy one matches the first with what is
created on its line, and then the second has no link, for two calls are left for one array. -/
theorem run_lossy_loses_array : arraysPlan.pool.IsBuilt ∧ (∀ file ∈ [arraysFile], file.Reachable) ∧
    (∀ file ∈ [arraysFile], ∀ element, file.isLinked element = false) ∧
      ∃ strict lossy, (run (arraysPlan.withLossy false) [arraysFile]).files[0]? = some strict ∧
        (run (arraysPlan.withLossy true) [arraysFile]).files[0]? = some lossy ∧
          strict.isAuthoritative ⟨.allocation, 1⟩ = true ∧ strict.isLinked ⟨.allocation, 1⟩ = true ∧
            lossy.isLinked ⟨.allocation, 1⟩ = false :=
  ⟨arraysPlan_isBuilt, arraysFile_reachable, arraysFile_unlinked, arraysResult false,
    arraysResult true, arraysResult_found false, arraysResult_found true, by decide +kernel⟩

end Correlate.Matching
