/-
Module: Correlate.Proofs.Disclosure
Purpose: Where an element stays open that should have been matched, the report says something about
  its file.
Main exports: Expected, run_discloses
-/
import Correlate.Proofs.Matching.Runs
import Correlate.Report.Basic

namespace Correlate.Matching

/-- An element of a body that has a compiled counterpart as a rule.  An array of several dimensions
may be created by a call, and an enclosing instance may be read without an access. -/
def HasCounterpart (file : Source.File) (element : Source.Ref) : Prop :=
  match element with
  | ⟨.method, _⟩ => True
  | ⟨.invocation, _⟩ => True
  | ⟨.allocation, i⟩ => (file.allocationAt ⟨i⟩).dimensions ≤ 1
  | ⟨.fieldAccess, i⟩ => (file.fieldAccessAt ⟨i⟩).outerThis = none
  | ⟨.cast, _⟩ => True
  | ⟨.methodRef, _⟩ => True
  | _ => False

/-- An element that should be matched, given what is matched around it. -/
inductive Expected (file : Source.File) : Source.Ref → Prop where
  /-- A lambda or an element of the body of a matched method. -/
  | inBody {element : Source.Ref} {source : Source.Handle .method}
      (counterpart : HasCounterpart file element)
      (owned : file.owningMethod? element = some source)
      (linked : file.isLinked source.ref = true) : Expected file element
  /-- A method of a matched type. -/
  | member {method : Source.Handle .method} {type : Source.Handle .type}
      (declared : file.declaringType? method.ref = some type)
      (linked : file.isLinked type.ref = true)
      (noConstructor : (file.methodAt method).name ≠ ReservedName.constructor)
      (noClassInitializer : (file.methodAt method).name ≠ ReservedName.classInitializer)
      (noBlock : (file.methodAt method).name ≠ ReservedName.instanceInitializer) :
      Expected file method.ref

variable {plan : Plan} {files : List Source.File} {outcome : Outcome}

theorem HasCounterpart.of_extends {file later : Source.File} {element : Source.Ref}
    (extended : file.Extends later) (known : element.index < file.count element.kind)
    (counterpart : HasCounterpart later element) : HasCounterpart file element := by
  obtain ⟨kind, i⟩ := element
  cases kind
  case allocation =>
    have same : later.allocationAt ⟨i⟩ = file.allocationAt ⟨i⟩ := extended.allocationAt known
    simp only [HasCounterpart] at counterpart ⊢
    rw [← same]
    exact counterpart
  case fieldAccess =>
    simp only [HasCounterpart] at counterpart ⊢
    rw [← extended.fieldAccessAt]
    exact counterpart
  all_goals exact counterpart

/-- Every element with a counterpart in a body that was entered is matched, or something was noted. -/
theorem State.Entered.settled {setting : Setting} {budget : Nat} {source : Source.Handle .method}
    {compiled : Compiled.Handle .method} {file : Source.File} {final : State}
    (entered : State.Entered setting budget source compiled file final) (formed : file.WellFormed)
    {element : Source.Ref} (known : element.index < file.count element.kind)
    (owned : file.owningMethod? element = some source)
    (counterpart : HasCounterpart file element) : final.Settled element := by
  rcases entered with ⟨passes, lambdas⟩ | ⟨_, noted⟩
  · obtain ⟨kind, i⟩ := element
    cases kind
    case method => exact lambdas ⟨i⟩ (formed.mem_lambdas.mpr ⟨known, owned⟩)
    case invocation =>
      obtain ⟨call, listed, rfl⟩ := List.mem_map.mp
        (formed.listed_of_owner .invocation nofun known owned)
      exact (passes .calls _).2 call (List.mem_filter.mpr ⟨listed, decide_eq_true rfl⟩)
    case allocation =>
      obtain ⟨allocation, listed, rfl⟩ := List.mem_map.mp
        (formed.listed_of_owner .allocation nofun known owned)
      exact (passes .allocations _).2 allocation
        (List.mem_filter.mpr ⟨listed, decide_eq_true rfl⟩) counterpart
    case fieldAccess =>
      obtain ⟨access, listed, rfl⟩ := List.mem_map.mp
        (formed.listed_of_owner .fieldAccess nofun known owned)
      have plain : (file.fieldAccessAt access).outerThis.isNone = true :=
        Option.isNone_iff_eq_none.mpr counterpart
      exact (passes .accesses _).2 access
        (List.mem_filter.mpr ⟨List.mem_filter.mpr ⟨listed, plain⟩, decide_eq_true rfl⟩)
    case cast =>
      obtain ⟨cast, listed, rfl⟩ := List.mem_map.mp
        (formed.listed_of_owner .cast nofun known owned)
      exact (passes .casts).2 cast listed
    case methodRef =>
      obtain ⟨reference, listed, rfl⟩ := List.mem_map.mp
        (formed.listed_of_owner .methodRef nofun known owned)
      exact (passes .references _).2 reference (List.mem_filter.mpr ⟨listed, decide_eq_true rfl⟩)
    all_goals exact counterpart.elim
  · exact .inr noted

namespace Turn

variable {i : Nat} {start final : State}

/-- What should be matched in the body of a matched method is matched, or something was noted. -/
theorem body_settled (turn : Turn plan files outcome i start final)
    {source : Source.Handle .method} (linked : final.file.isLinked source.ref = true)
    {element : Source.Ref} (known : element.index < final.file.count element.kind)
    (authoritative : final.file.isAuthoritative element = true)
    (owned : final.file.owningMethod? element = some source)
    (counterpart : HasCounterpart final.file element) : final.Settled element := by
  obtain ⟨steps, visited, _⟩ := turn.explores
  have finalSound := steps.sound turn.sound
  obtain ⟨compiled, isLinked⟩ := finalSound.current.linkedMethod_of_isLinked linked
  obtain ⟨entry, before, _, _, after, entered⟩ :=
    (visited source compiled isLinked).entered turn.sound
  have entrySound := before.sound turn.sound
  have extended := (after.grows entrySound).extended
  have entryKnown := extended.known_of_authoritative known authoritative
  refine entered.settled entrySound.current.formed entryKnown ?_
    (counterpart.of_extends extended entryKnown)
  rw [← extended.owningMethod entryKnown]
  exact owned

/-- What should be matched of the methods of a matched type is matched, or something was noted. -/
theorem member_settled (sound : outcome.Sound plan files)
    (turn : Turn plan files outcome i start final) {method : Source.Handle .method}
    {type : Source.Handle .type} (known : method.index < final.file.methods.size)
    (declared : final.file.declaringType? method.ref = some type)
    (linked : final.file.isLinked type.ref = true)
    (noConstructor : (final.file.methodAt method).name ≠ ReservedName.constructor)
    (noClassInitializer : (final.file.methodAt method).name ≠ ReservedName.classInitializer)
    (noBlock : (final.file.methodAt method).name ≠ ReservedName.instanceInitializer) :
    final.Settled method.ref := by
  obtain ⟨steps, _, types⟩ := turn.explores
  have extended := turn.extended
  have formed := turn.sound.current.formed
  have finalFitted := (steps.sound turn.sound).current
  rw [extended.methodCount] at known
  have shape := formed.shape known
  rw [extended.readMethod Source.Method.name fun _ _ _ => rfl]
    at noConstructor noClassInitializer noBlock
  -- The method is listed by the type.
  have listed : method ∈ (start.file.typeAt type).methods := by
    have place : (if (final.file.methodAt method).parent.isSome then none
        else some (final.file.methodAt method).declaring) = some type := declared
    rw [extended.methodParent, extended.readMethod Source.Method.declaring fun _ _ _ => rfl] at place
    split at place
    · cases place
    · next notInside =>
      obtain rfl := Option.some.inj place
      exact formed.listed_of_method known fun isLambda => notInside (shape.inside.mp isLambda)
  -- The type is matched in its own turn.
  obtain ⟨other, id, found, named⟩ := finalFitted.named_of_isLinked linked
  have typeKnown : type.index < start.file.types.size := by
    rw [← extended.typeCount]
    exact finalFitted.formed.linked _ linked
  rw [extended.binaryName] at named
  have isLinked := (turn.linkAt_eq type.ref).trans found
  obtain ⟨_, methods⟩ | ⟨handle, link, otherLinked, same, earlier⟩ :=
    types type typeKnown other named
  · refine methods method listed (fun isBlock => noBlock (shape.block isBlock)) ?_ ?_
    · rw [Bool.eq_false_iff]
      intro implicit
      exact noClassInitializer (shape.undeclared implicit)
    · simp [ReservedName.isConstructorOrInitializer, ReservedName.isInitializer, noConstructor,
        noClassInitializer, noBlock]
  · obtain rfl := sound.accounted.once (turn.linkAt_kept otherLinked) isLinked same
    rw [← turn.sound.index] at earlier
    exact absurd earlier (Earlier.irrefl _)

/-- What is noted in the turn of a file is reported. -/
theorem reported (turn : Turn plan files outcome i start final) (noticed : final.Noticed)
    (found : List Diagnostic) :
    ∃ diagnostic ∈ (Report.ofOutcome plan found outcome).diagnostics,
      diagnostic.file = final.file.path := by
  obtain ⟨notice, noted, here⟩ := noticed
  refine ⟨notice.diagnostic, List.mem_append_right _ (List.mem_map_of_mem ?_), here⟩
  exact Array.mem_toList_iff.mpr (turn.notices notice noted)

end Turn

/-- In every run, where an element of the source stays open that should have been matched, there is a
diagnostic about its file. -/
theorem run_discloses (built : plan.pool.IsBuilt) (reachable : ∀ file ∈ files, file.Reachable)
    (unlinked : ∀ file ∈ files, ∀ element, file.isLinked element = false)
    (found : List Diagnostic) :
    ∀ file ∈ (run plan files).files, ∀ element : Source.Ref,
      element.index < file.count element.kind → file.isAuthoritative element = true →
        file.isLinked element = false → Expected file element →
          ∃ diagnostic ∈ (Report.ofOutcome plan found (run plan files)).diagnostics,
            diagnostic.file = file.path := by
  intro file member element known authoritative notLinked expected
  have sound := run_sound built reachable unlinked
  obtain ⟨i, isFile⟩ := List.mem_iff_getElem?.mp member
  obtain ⟨start, final, turn, rfl⟩ := sound.turn_of_final isFile
  have settled : final.Settled element := by
    cases expected with
    | inBody counterpart owned linked =>
        exact turn.body_settled linked known authoritative owned counterpart
    | member declared linked noConstructor noClassInitializer noBlock =>
        exact turn.member_settled sound known declared linked noConstructor noClassInitializer noBlock
  rcases settled with linked | noticed
  · cases linked.symm.trans notLinked
  · exact turn.reported noticed found

theorem run_discloses_sample :
    ∃ diagnostic ∈ (Report.ofOutcome samplePlan [] (run samplePlan [sampleFile])).diagnostics,
      diagnostic.file = sampleResult.path := by
  have owned : sampleResult.owningMethod? ⟨.invocation, 1⟩ = some ⟨1⟩ := by decide +kernel
  exact run_discloses samplePlan_isBuilt sampleFile_reachable sampleFile_unlinked [] sampleResult
    sampleResult_mem ⟨.invocation, 1⟩ (by decide +kernel) (by decide +kernel) (by decide +kernel)
    (.inBody trivial owned (by decide +kernel))

end Correlate.Matching
