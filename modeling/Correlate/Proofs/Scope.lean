/-
Module: Correlate.Proofs.Scope
Purpose: Everything that is matched is matched inside what is matched around it.
Main exports: Scoped, run_scoped
-/
import Correlate.Proofs.Matching.Runs

namespace Correlate.Matching

/-!
Types are matched by their names, wherever they are nested.  A member is matched inside the compiled
type of its type, and a lambda, a variable or an element of a body inside the compiled method of the
method around it.
-/

variable {plan : Plan} {files : List Source.File} {outcome : Outcome}

/-- No type that comes before has the name. -/
def FirstNamed (files : List Source.File) (place : SourceHandle) (name : String) : Prop :=
  ∀ (i : Nat) (file : Source.File) (type : Source.Handle .type), files[i]? = some file →
    type.index < file.types.size → Earlier ⟨i, type.ref⟩ place → (file.typeAt type).binaryName ≠ name

/-- What is linked in a file is linked inside what is linked around it. -/
structure Enclosed (pool : Compiled.Pool) (file : Source.File) : Prop where
  fields : ∀ (field : Source.Handle .field) (link : Source.Link),
    file.link? field = some link →
      ∃ (compiledType : Compiled.Handle .type) (other : Compiled.Handle .field),
        file.linkedType? (file.fieldAt field).declaring = some compiledType ∧
          link.compiled = other.ref ∧ (pool.fieldAt other).declaring = compiledType
  methods : ∀ (method : Source.Handle .method) (link : Source.Link),
    file.link? method = some link → (file.methodAt method).kind ≠ .lambda →
      ∃ (compiledType : Compiled.Handle .type) (other : Compiled.Handle .method),
        file.linkedType? (file.methodAt method).declaring = some compiledType ∧
          link.compiled = other.ref ∧ (pool.methodAt other).declaring = compiledType
  lambdas : ∀ (method : Source.Handle .method) (link : Source.Link),
    file.link? method = some link → (file.methodAt method).kind = .lambda →
      ∃ (outer : Source.Handle .method) (compiled other : Compiled.Handle .method)
        (place : Compiled.Handle .lambda),
        (file.methodAt method).parent = some outer ∧ file.linkedMethod? outer = some compiled ∧
          place ∈ (pool.methodAt compiled).lambdas ∧
            (pool.lambdaAt place).implementation = some other ∧ link.compiled = other.ref
  statements : ∀ (element : Source.Ref) (link : Source.Link), file.link? element = some link →
    element.kind ≠ .type → element.kind ≠ .field → element.kind ≠ .method →
      ∃ (source : Source.Handle .method) (compiled : Compiled.Handle .method),
        file.owningMethod? element = some source ∧ file.linkedMethod? source = some compiled ∧
          pool.owningMethod? link.compiled = some compiled

namespace Fitted

variable {setting : Setting} {file : Source.File}

/-- What fits is inside what is linked around it. -/
theorem enclosed (poolFormed : setting.pool.WellFormed) (fitted : Fitted setting file) :
    Enclosed setting.pool file where
  fields field link found := by
    obtain ⟨type, compiledType, other, same, linked, listed, compiledListed⟩ :=
      (fitted.fits field link found).of_ownField
    rw [(fitted.formed.field_of_listed listed).2]
    exact ⟨compiledType, other, linked, same, poolFormed.field_declaring compiledListed⟩
  methods method link found declared := by
    obtain ⟨other, same, ⟨type, compiledType, linked, listed, compiledListed⟩ |
      ⟨outer, _, _, _, listed, _⟩⟩ := (fitted.fits method link found).of_ownMethod
    · rw [(fitted.formed.method_of_listed listed).2.2]
      exact ⟨compiledType, other, linked, same, poolFormed.method_declaring compiledListed⟩
    · obtain ⟨known, inside⟩ := fitted.formed.mem_lambdas.mp listed
      exact absurd ((fitted.formed.shape known).inside.mpr (by rw [inside]; rfl)) declared
  lambdas method link found isLambda := by
    obtain ⟨other, same, ⟨type, _, _, listed, _⟩ |
      ⟨outer, compiled, place, linked, listed, compiledListed, implemented⟩⟩ :=
        (fitted.fits method link found).of_ownMethod
    · exact absurd isLambda (fitted.formed.method_of_listed listed).2.1
    · exact ⟨outer, compiled, other, place, (fitted.formed.mem_lambdas.mp listed).2, linked,
        compiledListed, implemented, same⟩
  statements element link found noType noField noMethod := by
    have fits := fitted.fits element link found
    generalize link.compiled = other at fits ⊢
    cases fits with
    | @statement source compiled _ _ linked fits =>
        exact ⟨source, compiled, (fits.owner fitted.formed).2, linked, fits.compiledOwner poolFormed⟩
    | type => exact absurd rfl noType
    | field => exact absurd rfl noField
    | method | lambda => exact absurd rfl noMethod

end Fitted

namespace Enclosed

variable {pool : Compiled.Pool} {file : Source.File}

/-- What directly contains a linked element is linked. -/
theorem holder_linked (enclosed : Enclosed pool file) (formed : file.WellFormed)
    {outer inner : Source.Ref} (holds : file.Holds outer inner)
    (linked : file.isLinked inner = true) : file.isLinked outer = true := by
  have type_linked {type : Source.Handle .type} {compiledType : Compiled.Handle .type}
      (found : file.linkedType? type = some compiledType) : file.isLinked type = true := by
    obtain ⟨_, hasLink⟩ := Source.File.linkedType_iff.mp found
    exact Source.File.isLinked_of_link hasLink
  have method_linked {method : Source.Handle .method} {compiled : Compiled.Handle .method}
      (found : file.linkedMethod? method = some compiled) : file.isLinked method = true := by
    obtain ⟨_, hasLink⟩ := Source.File.linkedMethod_iff.mp found
    exact Source.File.isLinked_of_link hasLink
  obtain ⟨link, found⟩ := Source.File.exists_link linked
  obtain ⟨kind, i⟩ := inner
  by_cases isType : kind = .type
  · subst isType
    rcases holds with ⟨_, _, declared⟩ | ⟨_, _, owned⟩
    · cases declared
    · cases owned
  by_cases isField : kind = .field
  · subst isField
    rcases holds with ⟨type, rfl, declared⟩ | ⟨_, _, owned⟩
    · obtain rfl := Option.some.inj declared
      obtain ⟨_, _, found, _⟩ := enclosed.fields ⟨i⟩ link found
      exact type_linked found
    · cases owned
  by_cases isMethod : kind = .method
  · subst isMethod
    have known : i < file.methods.size := formed.linked _ linked
    have shape := formed.shape (show (⟨i⟩ : Source.Handle .method).index < _ from known)
    rcases holds with ⟨type, rfl, declared⟩ | ⟨method, rfl, owned⟩
    · simp only [Source.File.declaringType?] at declared
      split at declared
      · cases declared
      · next notInside =>
        obtain rfl := Option.some.inj declared
        obtain ⟨_, _, found, _⟩ :=
          enclosed.methods ⟨i⟩ link found fun isLambda => notInside (shape.inside.mp isLambda)
        exact type_linked found
    · have inside : (file.methodAt ⟨i⟩).parent = some method := owned
      obtain ⟨outer, _, _, _, isOuter, found, _⟩ :=
        enclosed.lambdas ⟨i⟩ link found (shape.inside.mpr (by rw [inside]; rfl))
      obtain rfl : outer = method := Option.some.inj (isOuter.symm.trans inside)
      exact method_linked found
  · obtain ⟨source, compiled, isOwner, found, _⟩ :=
      enclosed.statements ⟨kind, i⟩ link found isType isField isMethod
    rcases holds with ⟨type, rfl, declared⟩ | ⟨method, rfl, owned⟩
    · cases kind with
      | typeUsage => exact absurd isOwner nofun
      | type | field | method => contradiction
      | _ => exact absurd declared nofun
    · obtain rfl : source = method := Option.some.inj (isOwner.symm.trans owned)
      exact method_linked found

/-- Nothing is linked inside what is not. -/
theorem unlinked_inside (enclosed : Enclosed pool file) (formed : file.WellFormed)
    {outer inner : Source.Ref} (inside : Relation.TransGen file.Holds outer inner)
    (unlinked : file.isLinked outer = false) : file.isLinked inner = false := by
  have step {outer inner : Source.Ref} (holds : file.Holds outer inner)
      (unlinked : file.isLinked outer = false) : file.isLinked inner = false := by
    rw [Bool.eq_false_iff] at unlinked ⊢
    intro linked
    exact unlinked (enclosed.holder_linked formed holds linked)
  induction inside with
  | single holds => exact step holds unlinked
  | tail _ holds inductionHypothesis => exact step holds inductionHypothesis

end Enclosed

/-! ### Types -/

/-- Where the pool has the name of a type, its compiled type is taken by this type or an earlier
one. -/
theorem Outcome.Sound.type_taken (sound : outcome.Sound plan files) {i : Nat} {file : Source.File}
    {type : Source.Handle .type} {other : Compiled.Handle .type} (found : files[i]? = some file)
    (known : type.index < file.types.size)
    (named : plan.pool.typeNamed? (file.typeAt type).binaryName = some other) :
    ∃ handle link, linkAt outcome.files handle = some link ∧ link.compiled = other.ref ∧
      (handle = ⟨i, type.ref⟩ ∨ Earlier handle ⟨i, type.ref⟩) := by
  obtain ⟨start, final, turn, rfl⟩ := sound.turn_of_start found
  obtain ⟨_, _, types⟩ := turn.explores
  rcases types type known other named with ⟨linked, _⟩ | ⟨handle, link, linked, same, earlier⟩
  · obtain ⟨id, hasLink⟩ := Source.File.linkedType_iff.mp linked
    exact ⟨⟨i, type.ref⟩, _, (turn.linkAt_eq type.ref).trans hasLink, rfl, .inl rfl⟩
  · rw [← turn.sound.index] at earlier
    exact ⟨handle, link, turn.linkAt_kept linked, same, .inr earlier⟩

/-- A link to a compiled type is that of a type of its name. -/
theorem Outcome.Sound.type_of_link (sound : outcome.Sound plan files) {handle : SourceHandle}
    {link : Source.Link} {other : Compiled.Handle .type}
    (linked : linkAt outcome.files handle = some link) (same : link.compiled = other.ref) :
    ∃ (file : Source.File) (type : Source.Handle .type), files[handle.file]? = some file ∧
      handle.element = type.ref ∧ type.index < file.types.size ∧
        plan.pool.typeNamed? (file.typeAt type).binaryName = some other := by
  obtain ⟨file, found, hasLink⟩ := Option.bind_eq_some_iff.mp linked
  obtain ⟨start, final, turn, rfl⟩ := sound.turn_of_final found
  have fits := (sound.fitted 0 _ (List.mem_of_getElem? found)).fits _ link hasLink
  rw [same] at fits
  obtain ⟨type, isType, known, named⟩ := fits.of_type
  rw [turn.extended.typeCount] at known
  rw [turn.extended.binaryName] at named
  exact ⟨start.file, type, turn.start_file, isType, known, named⟩

/-- A type is linked if and only if the pool has its name and no earlier type has it. -/
theorem Outcome.Sound.type_linked_iff (poolFormed : plan.pool.WellFormed)
    (sound : outcome.Sound plan files) {i : Nat} {file : Source.File} {type : Source.Handle .type}
    (found : files[i]? = some file) (known : type.index < file.types.size) :
    (∃ link, linkAt outcome.files ⟨i, type.ref⟩ = some link) ↔
      (∃ other, plan.pool.typeNamed? (file.typeAt type).binaryName = some other) ∧
        FirstNamed files ⟨i, type.ref⟩ (file.typeAt type).binaryName := by
  constructor
  · rintro ⟨link, linked⟩
    obtain ⟨start, final, turn, rfl⟩ := sound.turn_of_start found
    have hasLink := (turn.linkAt_eq type.ref).symm.trans linked
    have fitted := sound.fitted 0 final.file (List.mem_of_getElem? turn.final_file)
    obtain ⟨other, id, otherFound, named⟩ :=
      fitted.named_of_isLinked (Source.File.isLinked_of_link hasLink)
    rw [turn.extended.binaryName] at named
    have same : link.compiled = other.ref :=
      congrArg Source.Link.compiled (Option.some.inj (hasLink.symm.trans otherFound))
    refine ⟨⟨other, named⟩, fun j earlierFile earlierType isFile isKnown earlier sameName => ?_⟩
    rw [← sameName] at named
    obtain ⟨handle, otherLink, otherLinked, otherSame, place⟩ :=
      sound.type_taken isFile isKnown named
    obtain rfl := sound.accounted.once otherLinked linked (otherSame.trans same.symm)
    rcases place with here | before
    · rw [here] at earlier
      exact Earlier.irrefl _ earlier
    · exact before.asymm earlier
  · rintro ⟨⟨other, named⟩, first⟩
    obtain ⟨handle, link, linked, same, place⟩ := sound.type_taken found known named
    rcases place with rfl | before
    · exact ⟨link, linked⟩
    · obtain ⟨earlierFile, earlierType, isFile, isType, isKnown, otherNamed⟩ :=
        sound.type_of_link linked same
      obtain ⟨j, element⟩ := handle
      obtain rfl : element = earlierType.ref := isType
      exact absurd (poolFormed.name_unique otherNamed named)
        (first j earlierFile earlierType isFile isKnown before)

/-! ### Whole runs -/

/-- What a run links, and where. -/
structure Scoped (plan : Plan) (files : List Source.File) (outcome : Outcome) : Prop where
  types : ∀ (i : Nat) (file : Source.File) (type : Source.Handle .type), files[i]? = some file →
    type.index < file.types.size →
      ((∃ link, linkAt outcome.files ⟨i, type.ref⟩ = some link) ↔
        (∃ other, plan.pool.typeNamed? (file.typeAt type).binaryName = some other) ∧
          FirstNamed files ⟨i, type.ref⟩ (file.typeAt type).binaryName)
  enclosed : ∀ file ∈ outcome.files, Enclosed plan.pool file
  unlinked_inside : ∀ file ∈ outcome.files, ∀ outer inner, file.isLinked outer = false →
    Relation.TransGen file.Holds outer inner → file.isLinked inner = false

/-- Every run links the first type of each compiled name, and links everything else inside what is
linked around it. -/
theorem run_scoped (built : plan.pool.IsBuilt) (reachable : ∀ file ∈ files, file.Reachable)
    (unlinked : ∀ file ∈ files, ∀ element, file.isLinked element = false) :
    Scoped plan files (run plan files) := by
  have sound := run_sound built reachable unlinked
  have enclosed (file : Source.File) (member : file ∈ (run plan files).files) :
      Enclosed plan.pool file := (sound.fitted 0 file member).enclosed built.wellFormed
  constructor
  case types => exact fun _ _ _ => sound.type_linked_iff built.wellFormed
  case enclosed => exact enclosed
  case unlinked_inside =>
    exact fun file member _ _ notLinked inside =>
      (enclosed file member).unlinked_inside (sound.fitted 0 file member).formed inside notLinked

theorem run_scoped_sample : Scoped samplePlan [sampleFile] (run samplePlan [sampleFile]) :=
  run_scoped samplePlan_isBuilt sampleFile_reachable sampleFile_unlinked

end Correlate.Matching
