/-
Module: Correlate.Proofs.StandIns
Purpose: Stand-ins are exactly what the source leaves over.
Main exports: Standing, Placed.standing, Pass.standIns, Created, Leftover, StandInsAreLeftovers,
  run_standIns
-/
import Correlate.Proofs.Matching.Runs

namespace Correlate.Matching

/-!
Two facts meet here.  A pass adds an element only as a stand-in for an open compiled element, so what
a run creates stands for something that no source element is linked to.  And whatever is owed is taken
at the end of a turn, so nothing that is left over goes without a stand-in.
-/

/-! ### What a stand-in tells -/

/-- A source element tells the same as a compiled one, in the type or method that is linked to the
owner of that. -/
inductive Standing (pool : Compiled.Pool) (file : Source.File) : Source.Ref → Compiled.Ref → Prop where
  | field {type : Source.Handle .type} {compiledType : Compiled.Handle .type}
      {own : Source.Handle .field} {other : Compiled.Handle .field}
      (linked : file.linkedType? type = some compiledType)
      (compiledListed : other ∈ (pool.typeAt compiledType).fields)
      (listed : own ∈ (file.typeAt type).fields)
      (told : file.fieldAt own =
        { position := (file.typeAt type).position, authoritative := false, declaring := type
          name := (pool.fieldAt other).name, type := (pool.fieldAt other).type }) :
      Standing pool file own other
  | call {source : Source.Handle .method} {compiled : Compiled.Handle .method}
      {own : Source.Handle .invocation} {other : Compiled.Handle .invocation} {line : Nat}
      (linked : file.linkedMethod? source = some compiled)
      (shallow : file.nestingDepth source ≤ maxLambdaNesting)
      (compiledListed : other ∈ (pool.methodAt compiled).invocations)
      (hinted : (pool.invocationAt other).line = some line)
      (listed : own ∈ (file.methodAt source).invocations)
      (told : file.invocationAt own =
        { position := some (.wholeLine line), authoritative := false, method := source
          name := (pool.invocationAt other).name, arity := (pool.invocationAt other).arity }) :
      Standing pool file own other
  | allocation {source : Source.Handle .method} {compiled : Compiled.Handle .method}
      {own : Source.Handle .allocation} {other : Compiled.Handle .allocation} {line : Nat}
      (linked : file.linkedMethod? source = some compiled)
      (shallow : file.nestingDepth source ≤ maxLambdaNesting)
      (compiledListed : other ∈ (pool.methodAt compiled).allocations)
      (hinted : (pool.allocationAt other).line = some line)
      (listed : own ∈ (file.methodAt source).allocations)
      (told : file.allocationAt own =
        { position := some (.wholeLine line), authoritative := false, method := source
          type := (pool.allocationAt other).type
          dimensions := TypeName.dimensionCount (pool.allocationAt other).type }) :
      Standing pool file own other

namespace Standing

variable {pool : Compiled.Pool} {file later : Source.File} {own : Source.Ref} {other : Compiled.Ref}

theorem owed (standing : Standing pool file own other) : Owed pool file other := by
  cases standing with
  | field linked compiledListed => exact .field linked compiledListed
  | call linked shallow compiledListed hinted =>
      exact .site linked shallow (.call compiledListed hinted)
  | allocation linked shallow compiledListed hinted =>
      exact .site linked shallow (.allocation compiledListed hinted)

theorem not_authoritative (standing : Standing pool file own other) :
    file.isAuthoritative own = false := by
  cases standing with
  | field _ _ _ told => exact congrArg Source.Field.authoritative told
  | call _ _ _ _ _ told => exact congrArg Source.Invocation.authoritative told
  | allocation _ _ _ _ _ told => exact congrArg Source.Allocation.authoritative told

/-- What stands for something goes on to do so. -/
theorem extend (standing : Standing pool file own other) (extended : file.Extends later)
    (known : own.index < file.count own.kind) : Standing pool later own other := by
  cases standing with
  | @field type _ own _ linked compiledListed listed told =>
      obtain ⟨_, _, same⟩ := extended.types type
      refine .field (extended.linkedType linked) compiledListed (extended.mem_fields listed) ?_
      rw [extended.fieldAt known, told, same]
  | call linked shallow compiledListed hinted listed told =>
      rw [← extended.nestingDepth] at shallow
      refine .call (extended.linkedMethod linked) shallow compiledListed hinted
        (extended.mem_invocations listed) ?_
      rw [extended.invocationAt known, told]
  | allocation linked shallow compiledListed hinted listed told =>
      rw [← extended.nestingDepth] at shallow
      refine .allocation (extended.linkedMethod linked) shallow compiledListed hinted
        (extended.mem_allocations listed) ?_
      rw [extended.allocationAt known, told]

end Standing

/-- A stand-in tells what it is placed for. -/
theorem Placed.standing {setting : Setting} {file later : Source.File} {own : Source.Ref}
    {other : Compiled.Ref} (placed : Placed setting file later own other)
    (formed : file.WellFormed) : Standing setting.pool later own other := by
  have extended := (placed.standsIn.added formed).2.1
  cases placed with
  | @field type _ _ linked compiledListed =>
      have known := formed.linkedType_known linked
      obtain ⟨_, _, same⟩ := extended.types type
      refine .field (extended.linkedType linked) compiledListed
        (Source.File.mem_fields_pushField known) ?_
      rw [same]
      exact Source.File.fieldAt_pushField _
  | call linked shallow compiledListed hinted =>
      have known := formed.linkedMethod_known linked
      rw [← extended.nestingDepth] at shallow
      exact .call (extended.linkedMethod linked) shallow compiledListed hinted
        (Source.File.mem_invocations_pushInvocation known)
        (Source.File.invocationAt_pushInvocation _)
  | allocation linked shallow compiledListed hinted =>
      have known := formed.linkedMethod_known linked
      rw [← extended.nestingDepth] at shallow
      exact .allocation (extended.linkedMethod linked) shallow compiledListed hinted
        (Source.File.mem_allocations_pushAllocation known)
        (Source.File.allocationAt_pushAllocation _)

/-! ### Turns -/

/-- An element is linked to what it stands for. -/
def StandsLinked (pool : Compiled.Pool) (file : Source.File) (element : Source.Ref) : Prop :=
  ∃ link, file.link? element = some link ∧ Standing pool file element link.compiled

section Passes

variable {setting : Setting} {done : List Source.File} {state later : State}

/-- What a pass creates is a stand-in. -/
theorem Pass.creates (sound : state.Sound setting done) (pass : Pass setting state later)
    {element : Source.Ref} (known : element.index < later.file.count element.kind) :
    element.index < state.file.count element.kind ∨ StandsLinked setting.pool later.file element := by
  have formed := sound.current.formed
  have of_relinked (same : state.file.Relinked later.file) :
      element.index < state.file.count element.kind := same.count element.kind ▸ known
  cases pass with
  | offer => exact .inl (of_relinked (State.record_relinked _ _ _ _))
  | members fits links => exact .inl (of_relinked links.gains.relinked)
  | turn => exact .inl known
  | @statements _ pair linked untouched =>
      obtain ⟨links, _⟩ := State.matchStatements_links formed sound.pool untouched
        fun other => sound.opened linked untouched
      have same : (state.addPair (pair.1, pair.2)).file.Relinked _ := links.gains.relinked
      exact .inl (of_relinked same)
  | outerThis => exact .inl (of_relinked (State.matchOuterThis_links formed _).gains.relinked)
  | arrays =>
      exact .inl (of_relinked (State.matchReflectiveArrays_links formed sound.pool _).gains.relinked)
  | resolve usage name =>
      refine .inl ?_
      obtain ⟨kind, i⟩ := element
      cases kind
      case typeUsage => simpa [Source.File.count, Source.File.resolveUsage] using known
      all_goals exact known
  | @standIn _ file own other placed opened =>
      let placedState : State := { state with file }
      have accepted : placedState.accepts own other = true := placed.standsIn.accepts formed opened
      have same := State.record_relinked setting placedState own other
      have extended := State.record_extends setting placedState own other
      have placedKnown : element.index < file.count element.kind := same.count element.kind ▸ known
      apply (placed.standsIn.known placedKnown).imp_right
      rintro rfl
      have linked := (@State.link_record setting _ _ _ accepted element).trans (if_pos rfl)
      exact ⟨_, linked, (placed.standing formed).extend extended placedKnown⟩

/-- What a sequence of passes creates are stand-ins. -/
theorem Passes.creates (sound : state.Sound setting done) (passes : Passes setting state later)
    {element : Source.Ref} (known : element.index < later.file.count element.kind) :
    element.index < state.file.count element.kind ∨ StandsLinked setting.pool later.file element := by
  induction passes with
  | refl => exact .inl known
  | @tail current later before pass inductionHypothesis =>
      have currentSound := (Passes.sound_grows sound before).1
      have extended := ((pass.steps currentSound).grows currentSound).extended
      rcases pass.creates currentSound known with currentKnown | stands
      · apply (inductionHypothesis currentKnown).imp_right
        rintro ⟨link, linked, standing⟩
        exact ⟨link, extended.links element link linked, standing.extend extended currentKnown⟩
      · exact .inr stands

end Passes

/-! ### Whole runs -/

/-- A run has created an element: it is in the file at the end and was not at the start. -/
def Created (files later : List Source.File) (handle : SourceHandle) : Prop :=
  ∃ before after : Source.File, files[handle.file]? = some before ∧
    later[handle.file]? = some after ∧
    before.count handle.element.kind ≤ handle.element.index ∧
    handle.element.index < after.count handle.element.kind

/-- The source contains an element of one of several files. -/
def authoritativeAt (files : List Source.File) (handle : SourceHandle) : Bool :=
  files[handle.file]?.any fun file => file.isAuthoritative handle.element

/-- A compiled element that is owed and that no element of the source is linked to. -/
structure Leftover (pool : Compiled.Pool) (files : List Source.File) (other : Compiled.Ref) : Prop where
  owed : ∃ file ∈ files, Owed pool file other
  unmatched : ∀ handle link, linkAt files handle = some link → link.compiled = other →
    authoritativeAt files handle = false

/-- The elements that a run creates and the compiled elements that are left over correspond one to
one, and nothing that is owed stays open. -/
structure StandInsAreLeftovers (plan : Plan) (files : List Source.File) (outcome : Outcome) :
    Prop where
  created : ∀ handle, Created files outcome.files handle →
    ∃ file link, outcome.files[handle.file]? = some file ∧
      file.link? handle.element = some link ∧ file.isAuthoritative handle.element = false ∧
      Leftover plan.pool outcome.files link.compiled ∧
      Standing plan.pool file handle.element link.compiled
  stoodFor : ∀ other, Leftover plan.pool outcome.files other →
    ∃! handle, Created files outcome.files handle ∧
      ∃ link, linkAt outcome.files handle = some link ∧ link.compiled = other
  taken : ∀ file ∈ outcome.files, ∀ other, Owed plan.pool file other →
    outcome.ledger.registry.isConsumed other = true

section Runs

variable {plan : Plan} {files : List Source.File} {outcome : Outcome}

/-- Whatever is owed is taken in the end. -/
theorem Outcome.Sound.owed_taken (sound : outcome.Sound plan files) {file : Source.File}
    (member : file ∈ outcome.files) {other : Compiled.Ref} (owed : Owed plan.pool file other) :
    outcome.ledger.registry.isConsumed other = true := by
  obtain ⟨i, found⟩ := List.mem_iff_getElem?.mp member
  obtain ⟨start, final, turn, rfl⟩ := sound.turn_of_final found
  have finalSound := turn.journey.steps.sound turn.sound
  obtain ⟨handle, link, linked, same⟩ := finalSound.accounted.isConsumed_iff.mp (turn.taken owed)
  exact sound.accounted.isConsumed_iff.mpr ⟨handle, link, turn.linkAt_kept linked, same⟩

/-- What a run creates stands for something that nothing in the source is linked to. -/
theorem Outcome.Sound.created (sound : outcome.Sound plan files) {handle : SourceHandle}
    (isCreated : Created files outcome.files handle) :
    ∃ file link, outcome.files[handle.file]? = some file ∧
      file.link? handle.element = some link ∧ file.isAuthoritative handle.element = false ∧
      Leftover plan.pool outcome.files link.compiled ∧
      Standing plan.pool file handle.element link.compiled := by
  obtain ⟨i, element⟩ := handle
  obtain ⟨before, after, isBefore, isAfter, isNew, known⟩ := isCreated
  obtain ⟨start, final, turn, rfl⟩ := sound.turn_of_final isAfter
  obtain rfl := Option.some.inj (turn.start_file.symm.trans isBefore)
  rcases turn.passes.creates turn.sound known with isOld | ⟨link, linked, standing⟩
  · exact absurd isOld (Nat.not_lt_of_le isNew)
  · refine ⟨final.file, link, isAfter, linked, standing.not_authoritative, ⟨?_, ?_⟩, standing⟩
    · exact ⟨final.file, List.mem_of_getElem? isAfter, standing.owed⟩
    · intro handle other otherLinked same
      have here : linkAt outcome.files ⟨i, element⟩ = some link := (turn.linkAt_eq element).trans linked
      obtain rfl := sound.accounted.once otherLinked here same
      rw [authoritativeAt, isAfter]
      exact standing.not_authoritative

/-- What is left over has exactly one stand-in. -/
theorem Outcome.Sound.stoodFor (sound : outcome.Sound plan files)
    (authoritative : ∀ file ∈ files, ∀ element : Source.Ref,
      element.index < file.count element.kind → file.isAuthoritative element = true)
    {other : Compiled.Ref} (leftover : Leftover plan.pool outcome.files other) :
    ∃! handle, Created files outcome.files handle ∧
      ∃ link, linkAt outcome.files handle = some link ∧ link.compiled = other := by
  obtain ⟨file, member, owed⟩ := leftover.owed
  have taken := sound.owed_taken member owed
  obtain ⟨handle, link, linked, same⟩ := sound.accounted.isConsumed_iff.mp taken
  refine ⟨handle, ⟨?_, link, linked, same⟩, ?_⟩
  · obtain ⟨i, element⟩ := handle
    have stands := leftover.unmatched _ link linked same
    obtain ⟨after, isAfter, found⟩ := Option.bind_eq_some_iff.mp linked
    obtain ⟨start, final, turn, rfl⟩ := sound.turn_of_final isAfter
    have fitted := sound.fitted i final.file (List.mem_of_getElem? isAfter)
    have known := fitted.formed.linked element (Source.File.isLinked_of_link found)
    refine ⟨start.file, final.file, turn.start_file, isAfter, Nat.le_of_not_lt fun isOld => ?_, known⟩
    -- What the file had from the start is in the source.
    have inSource := authoritative start.file (List.mem_of_getElem? turn.start_file) element isOld
    rw [← turn.extended.isAuthoritative isOld] at inSource
    rw [authoritativeAt, isAfter] at stands
    exact absurd inSource (Bool.eq_false_iff.mp stands)
  · rintro another ⟨_, anotherLink, anotherLinked, anotherSame⟩
    exact sound.accounted.once anotherLinked linked (anotherSame.trans same.symm)

/-- In every run, the stand-ins are exactly the fields of linked types, and the calls and allocations
on known lines of methods whose bodies were matched, that no element of the source is linked to. -/
theorem run_standIns (built : plan.pool.IsBuilt) (reachable : ∀ file ∈ files, file.Reachable)
    (unlinked : ∀ file ∈ files, ∀ element, file.isLinked element = false)
    (authoritative : ∀ file ∈ files, ∀ element : Source.Ref,
      element.index < file.count element.kind → file.isAuthoritative element = true) :
    StandInsAreLeftovers plan files (run plan files) := by
  have sound := run_sound built reachable unlinked
  constructor
  case created => exact fun _ => sound.created
  case stoodFor => exact fun _ => sound.stoodFor authoritative
  case taken => exact fun _ member _ => sound.owed_taken member

end Runs

/-- A type with two fields and a method that calls `go` and `stop` on known lines and `skip` on an
unknown one, and creates an array. -/
def partialPlan : Plan :=
  let call (name : String) : Compiled.Signature := { name, params := [], returnType := "void" }
  let steps : List Compiled.Step :=
    [.type "a.B", .field ⟨0⟩ "x" "int" {}, .field ⟨0⟩ "y" "long" {}, .method ⟨0⟩ (call "m") {},
      .invocation ⟨0⟩ "a.C" (call "go") (some 3), .invocation ⟨0⟩ "a.C" (call "stop") (some 7),
      .invocation ⟨0⟩ "a.C" (call "skip") none, .allocation ⟨0⟩ "int[][]" (some 4)]
  { pool := (({} : Compiled.Builder).performAll steps).1.finish.pool }

/-- A source that has one of the fields and one of the calls. -/
def partialFile : Source.File :=
  ({ path := "B.java", package := "a" } : Source.File).performAll
    [.type "B" none none, .field ⟨0⟩ "x" "int" none, .method ⟨0⟩ "m" none false none,
      .invocation ⟨1⟩ "go" 0 (some (.wholeLine 3)) none none]

/-- The other field, the call and the array on known lines get stand-ins; the third call does not. -/
theorem run_standIns_partial :
    StandInsAreLeftovers partialPlan [partialFile] (run partialPlan [partialFile]) ∧
      (run partialPlan [partialFile]).files.map (fun file => file.fields.toList.drop 1) =
        [[⟨none, false, ⟨0⟩, "y", "long"⟩]] ∧
      (run partialPlan [partialFile]).files.map (fun file => file.invocations.toList.drop 1) =
        [[⟨some (.wholeLine 7), false, ⟨1⟩, "stop", 0, none, none⟩]] ∧
      (run partialPlan [partialFile]).files.map (fun file => file.allocations.toList) =
        [[⟨some (.wholeLine 4), false, ⟨1⟩, "int[][]", 2, none⟩]] := by
  have built : partialPlan.pool.IsBuilt := by
    refine ⟨_, Compiled.Builder.Reachable.empty.performAll ?admitted, rfl⟩
    exact ⟨trivial, Nat.zero_lt_one, Nat.zero_lt_one, Nat.zero_lt_one, Nat.zero_lt_one,
      Nat.zero_lt_one, Nat.zero_lt_one, Nat.zero_lt_one, trivial⟩
  have reachable : ∀ file ∈ [partialFile], file.Reachable := by
    refine List.forall_mem_singleton.mpr ?_
    refine (Source.File.Reachable.empty "B.java" "a").performAll ?known
    exact ⟨nofun, Nat.zero_lt_one, Nat.zero_lt_one, ⟨Nat.one_lt_two, nofun, nofun⟩, trivial⟩
  have unlinked : ∀ file ∈ [partialFile], ∀ element, file.isLinked element = false :=
    List.forall_mem_singleton.mpr fun _ => rfl
  have authoritative : ∀ file ∈ [partialFile], ∀ element : Source.Ref,
      element.index < file.count element.kind → file.isAuthoritative element = true := by
    refine List.forall_mem_singleton.mpr ?_
    rintro ⟨kind, i⟩ known
    cases kind
    case allocation => exact absurd known (Nat.not_lt_zero i)
    case field | invocation =>
      obtain rfl := Nat.lt_one_iff.mp known
      rfl
    all_goals rfl
  refine ⟨run_standIns built reachable unlinked authoritative, ?_, ?_, ?_⟩
  all_goals decide +kernel

end Correlate.Matching
