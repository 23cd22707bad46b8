/-
Module: Correlate.Proofs.LambdaSites
Purpose: When a lambda is matched with the method that implements it.
Main exports: Turn.implementation_taken, run_lambdaSites, run_crossed
-/
import Correlate.Proofs.Compatibility

namespace Correlate.Matching

/-!
The lambdas of a method are paired with the sites of the compiled method one after the other, and the
order of lines is not looked at.  So nothing but the number of parameters and what is taken already can
keep a lambda from the method that implements it.
-/

section Turn

variable {plan : Plan} {files : List Source.File} {outcome : Outcome} {i : Nat} {start final : State}

/-- At the end of the turn of a file, the methods that implement the lambdas of matched bodies are
taken. -/
theorem Turn.implementation_taken (turn : Turn plan files outcome i start final)
    {source : Source.Handle .method} {compiled : Compiled.Handle .method}
    (linked : final.file.linkedMethod? source = some compiled)
    (shallow : final.file.nestingDepth source ≤ maxLambdaNesting)
    (sized : (final.file.methodAt source).lambdas.length =
      (plan.pool.methodAt compiled).lambdas.length)
    {n : Nat} {lambda : Source.Handle .method} {place : Compiled.Handle .lambda}
    {implementation : Compiled.Handle .method}
    (isLambda : (final.file.methodAt source).lambdas[n]? = some lambda)
    (isPlace : (plan.pool.methodAt compiled).lambdas[n]? = some place)
    (implemented : (plan.pool.lambdaAt place).implementation = some implementation)
    (room : (final.file.methodAt lambda).arity ≤ (plan.pool.methodAt implementation).arity) :
    final.isConsumed implementation.ref = true := by
  obtain ⟨_, visited, _⟩ := turn.explores
  obtain ⟨entry, before, entryLinked, untouched, after⟩ := visited source compiled linked
  obtain ⟨excursion, _, matched⟩ := State.matchBody_explores turn.sound _ before rfl entryLinked untouched
  have entrySound := before.sound turn.sound
  have bodySound := excursion.steps.sound entrySound
  have extended := (excursion.steps.grows entrySound).extended.trans (after.grows bodySound).extended
  have lambdas_kept : (final.file.methodAt source).lambdas = (entry.file.methodAt source).lambdas :=
    extended.readMethod Source.Method.lambdas (fun _ _ _ => rfl) source
  have arity_kept : (final.file.methodAt lambda).arity = (entry.file.methodAt lambda).arity :=
    extended.readMethod Source.Method.arity (fun _ _ _ => rfl) lambda
  rw [extended.nestingDepth] at shallow
  rw [lambdas_kept] at sized isLambda
  rw [arity_kept] at room
  have paired : (lambda, place) ∈ (entry.file.methodAt source).lambdas.zip
      (plan.pool.methodAt compiled).lambdas :=
    List.mem_of_getElem? (List.getElem?_zip_eq_some.mpr ⟨isLambda, isPlace⟩)
  exact (after.grows bodySound).consumed _
    ((matched shallow).2 sized (lambda, place) paired implementation implemented room)

end Turn

variable {plan : Plan} {files : List Source.File}

/-- Every run matches the lambdas of a matched method with the methods that implement the sites at the
same places, wherever both have equally many.  A lambda is left out exactly if the method has no room
for its parameters or belongs to another source element. -/
theorem run_lambdaSites (built : plan.pool.IsBuilt) (reachable : ∀ file ∈ files, file.Reachable)
    (unlinked : ∀ file ∈ files, ∀ element, file.isLinked element = false) :
    ∀ i file, (run plan files).files[i]? = some file → ∀ source compiled,
      file.linkedMethod? source = some compiled → file.nestingDepth source ≤ maxLambdaNesting →
      (file.methodAt source).lambdas.length = (plan.pool.methodAt compiled).lambdas.length →
      ∀ (n : Nat) lambda place implementation, (file.methodAt source).lambdas[n]? = some lambda →
        (plan.pool.methodAt compiled).lambdas[n]? = some place →
        (plan.pool.lambdaAt place).implementation = some implementation →
          (file.linkedMethod? lambda = some implementation ↔
            (file.methodAt lambda).arity ≤ (plan.pool.methodAt implementation).arity ∧
              ∀ handle link, linkAt (run plan files).files handle = some link →
                link.compiled = implementation.ref → handle = ⟨i, lambda.ref⟩) := by
  intro i file found source compiled linked shallow sized n lambda place implementation isLambda
    isPlace implemented
  have sound := run_sound built reachable unlinked
  have fitted := sound.fitted i file (List.mem_of_getElem? found)
  have listed : lambda ∈ (file.methodAt source).lambdas := List.mem_of_getElem? isLambda
  obtain ⟨start, final, turn, rfl⟩ := sound.turn_of_final found
  constructor
  · intro isMatched
    obtain ⟨id, isLink⟩ := Source.File.linkedMethod_iff.mp isMatched
    obtain ⟨other, same, room⟩ := fitted.compatible.lambdas lambda _ isLink
      (fitted.formed.isLambda_of_listed listed)
    obtain rfl := compiledRef_injective same
    refine ⟨room, fun handle link isOther taken => ?_⟩
    exact sound.accounted.once isOther ((turn.linkAt_eq lambda.ref).trans isLink) taken
  · rintro ⟨room, alone⟩
    have finalSound := turn.explores.1.sound turn.sound
    obtain ⟨handle, link, isLink, same⟩ := finalSound.accounted.isConsumed_iff.mp
      (turn.implementation_taken linked shallow sized isLambda isPlace implemented room)
    have isKept := turn.linkAt_kept isLink
    obtain rfl := alone handle link isKept same
    rw [turn.linkAt_eq] at isKept
    obtain ⟨_, id⟩ := link
    cases same
    exact Source.File.linkedMethod_iff.mpr ⟨id, isKept⟩

/-! ### Lambdas in opposite orders -/

/-- A method with two sites, the later one first. -/
def crossedPlan : Plan :=
  let steps : List Compiled.Step :=
    [.type "p.A", .method ⟨0⟩ { name := "f", params := [], returnType := "void" } {},
      .method ⟨0⟩ { name := "lambda$f$0", params := [], returnType := "void" } {},
      .method ⟨0⟩ { name := "lambda$f$1", params := [], returnType := "void" } {},
      .lambda ⟨0⟩ "<p.A: void lambda$f$0()>" (some 20),
      .lambda ⟨0⟩ "<p.A: void lambda$f$1()>" (some 10)]
  { pool := (({} : Compiled.Builder).performAll steps).1.finish.pool }

/-- Its source, with two lambdas in the order of lines. -/
def crossedFile : Source.File :=
  ({ path := "p/A.src.json", package := "p" } : Source.File).performAll
    [.type "A" none none, .method ⟨0⟩ "f" none false none, .lambda ⟨1⟩ (some ⟨10, 1, 10, 5⟩),
      .lambda ⟨1⟩ (some ⟨20, 1, 20, 5⟩)]

theorem crossedPlan_isBuilt : crossedPlan.pool.IsBuilt := by
  refine ⟨_, Compiled.Builder.Reachable.empty.performAll ?admitted, rfl⟩
  exact ⟨trivial, Nat.zero_lt_one, Nat.zero_lt_one, Nat.zero_lt_one, Nat.zero_lt_succ 2,
    Nat.zero_lt_succ 2, trivial⟩

theorem crossedFile_reachable : ∀ file ∈ [crossedFile], file.Reachable := by
  refine List.forall_mem_singleton.mpr ?_
  refine (Source.File.Reachable.empty "p/A.src.json" "p").performAll ?admitted
  exact ⟨nofun, Nat.zero_lt_one, Nat.one_lt_two, Nat.lt_succ_of_lt Nat.one_lt_two, trivial⟩

theorem crossedFile_unlinked : ∀ file ∈ [crossedFile], ∀ element, file.isLinked element = false :=
  List.forall_mem_singleton.mpr fun _ => rfl

/-- The file after the run. -/
def crossedResult : Source.File :=
  (run crossedPlan [crossedFile]).files.headD default

theorem crossedResult_mem : crossedResult ∈ (run crossedPlan [crossedFile]).files :=
  headD_mem_run crossedPlan_isBuilt crossedFile_reachable crossedFile_unlinked

/-- The lines contradict each other, and yet both lambdas are matched and nothing is noted. -/
theorem run_crossed :
    crossedPlan.pool.IsBuilt ∧ (∀ file ∈ [crossedFile], file.Reachable) ∧
      (∀ file ∈ [crossedFile], ∀ element, file.isLinked element = false) ∧
      crossedResult ∈ (run crossedPlan [crossedFile]).files ∧
      crossedPlan.options.verifyOrdering = true ∧
      crossedResult.linkedMethod? ⟨1⟩ = some ⟨0⟩ ∧
      crossedResult.nestingDepth ⟨1⟩ ≤ maxLambdaNesting ∧
      (crossedResult.methodAt ⟨1⟩).lambdas = [⟨2⟩, ⟨3⟩] ∧
      (crossedPlan.pool.methodAt ⟨0⟩).lambdas = [⟨0⟩, ⟨1⟩] ∧
      firstInversion? (pairLines crossedResult crossedPlan.pool
        (State.zipRefs (crossedResult.methodAt ⟨1⟩).lambdas
          (crossedPlan.pool.methodAt ⟨0⟩).lambdas)) = some (0, 1) ∧
      crossedResult.linkedMethod? ⟨2⟩ = some ⟨1⟩ ∧ crossedResult.linkedMethod? ⟨3⟩ = some ⟨2⟩ ∧
      (run crossedPlan [crossedFile]).ledger.notices = #[] := by
  refine ⟨crossedPlan_isBuilt, crossedFile_reachable, crossedFile_unlinked, crossedResult_mem, ?_⟩
  decide +kernel

theorem run_lambdaSites_sample : crossedResult.linkedMethod? ⟨3⟩ = some ⟨2⟩ ↔
    (crossedResult.methodAt ⟨3⟩).arity ≤ (crossedPlan.pool.methodAt ⟨2⟩).arity ∧
      ∀ handle link, linkAt (run crossedPlan [crossedFile]).files handle = some link →
        link.compiled = (⟨2⟩ : Compiled.Handle .method).ref →
          handle = ⟨0, (⟨3⟩ : Source.Handle .method).ref⟩ := by
  have found : (run crossedPlan [crossedFile]).files[0]? = some crossedResult :=
    headD_getElem?_run crossedPlan_isBuilt crossedFile_reachable crossedFile_unlinked
  exact run_lambdaSites crossedPlan_isBuilt crossedFile_reachable crossedFile_unlinked 0
    crossedResult found ⟨1⟩ ⟨0⟩ (by decide +kernel) (by decide +kernel) (by decide +kernel) 1 ⟨3⟩ ⟨1⟩
    ⟨2⟩ (by decide +kernel) (by decide +kernel) (by decide +kernel)

end Correlate.Matching
