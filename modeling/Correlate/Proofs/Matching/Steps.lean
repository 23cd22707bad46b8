/-
Module: Correlate.Proofs.Matching.Steps
Purpose: What matching a file does step by step, and what every step keeps.
Main exports: StandsIn, Step, Steps, Fitted, State.Sound, Steps.sound, Steps.grows
-/
import Correlate.Matching.Body
import Correlate.Matching.TypeUse
import Correlate.Proofs.Matching.Accounts
import Correlate.Proofs.Matching.Fit
import Correlate.Proofs.Matching.Links

namespace Correlate.Matching

/-!
Whatever matching does to a file is a sequence of `Step`s.  Every one of them finds what it matches
fitting, so the links of a file fit at all times, and the registry agrees with the links.
-/

/-- A file gets a stand-in for a compiled element. -/
inductive StandsIn (setting : Setting) (file : Source.File) :
    Source.File → Source.Ref → Compiled.Ref → Prop where
  | field {type : Source.Handle .type} {compiledType : Compiled.Handle .type}
      {other : Compiled.Handle .field} (spelling : String)
      (linked : file.linkedType? type = some compiledType)
      (compiledListed : other ∈ (setting.pool.typeAt compiledType).fields) :
      StandsIn setting file
        (file.addPlaceholderField type (setting.pool.fieldAt other).name spelling).1
        ⟨.field, file.fields.size⟩ other
  | call {source : Source.Handle .method} {compiled : Compiled.Handle .method}
      {other : Compiled.Handle .invocation} (name : String) (arity line : Nat)
      (linked : file.linkedMethod? source = some compiled)
      (compiledListed : other ∈ (setting.pool.methodAt compiled).invocations) :
      StandsIn setting file (file.addPlaceholderInvocation source name arity line).1
        ⟨.invocation, file.invocations.size⟩ other
  | allocation {source : Source.Handle .method} {compiled : Compiled.Handle .method}
      {other : Compiled.Handle .allocation} (type : String) (line : Nat)
      (linked : file.linkedMethod? source = some compiled)
      (compiledListed : other ∈ (setting.pool.methodAt compiled).allocations) :
      StandsIn setting file (file.addPlaceholderAllocation source type line).1
        ⟨.allocation, file.allocations.size⟩ other

theorem StandsIn.links {setting : Setting} {file later : Source.File} {own : Source.Ref}
    {other : Compiled.Ref} (stands : StandsIn setting file later own other) :
    later.links = file.links := by
  cases stands <;> rfl

/-- The stand-in is the one new element. -/
theorem StandsIn.count {setting : Setting} {file later : Source.File} {own : Source.Ref}
    {other : Compiled.Ref} (stands : StandsIn setting file later own other) (kind : Source.Kind) :
    later.count kind = if kind = own.kind then own.index + 1 else file.count kind := by
  cases stands with
  | field =>
      cases kind <;> simp [Source.File.count, Source.File.addPlaceholderField,
        Source.File.pushField, Source.File.changeType]
  | call =>
      cases kind <;> simp [Source.File.count, Source.File.addPlaceholderInvocation,
        Source.File.pushInvocation, Source.File.changeMethod]
  | allocation =>
      cases kind <;> simp [Source.File.count, Source.File.addPlaceholderAllocation,
        Source.File.pushAllocation, Source.File.changeMethod]

theorem StandsIn.index {setting : Setting} {file later : Source.File} {own : Source.Ref}
    {other : Compiled.Ref} (stands : StandsIn setting file later own other) :
    own.index = file.count own.kind := by
  cases stands <;> rfl

theorem StandsIn.known {setting : Setting} {file later : Source.File} {own : Source.Ref}
    {other : Compiled.Ref} (stands : StandsIn setting file later own other) {element : Source.Ref}
    (laterKnown : element.index < later.count element.kind) :
    element.index < file.count element.kind ∨ element = own := by
  rw [stands.count] at laterKnown
  split at laterKnown
  · next same =>
    rw [same, ← stands.index]
    apply (Nat.lt_succ_iff_lt_or_eq.mp laterKnown).imp_right
    intro last
    obtain ⟨_, _⟩ := element
    exact Source.Ref.mk.injEq .. ▸ ⟨same, last⟩
  · exact .inl laterKnown

/-- A stand-in is a new element of the file that fits what it stands for. -/
theorem StandsIn.added {setting : Setting} {file later : Source.File} {own : Source.Ref}
    {other : Compiled.Ref} (stands : StandsIn setting file later own other)
    (formed : file.WellFormed) :
    later.WellFormed ∧ file.Extends later ∧ file.isLinked own = false ∧
      Fits setting later own other := by
  have fresh (kind : Source.Kind) : file.isLinked ⟨kind, file.count kind⟩ = false := by
    rw [Bool.eq_false_iff]
    intro linked
    exact Nat.lt_irrefl _ (formed.linked _ linked)
  cases stands with
  | @field type _ other spelling linked compiledListed =>
      have known := formed.linkedType_known linked
      have extended : file.Extends
          (file.addPlaceholderField type (setting.pool.fieldAt other).name spelling).1 :=
        Source.File.extends_pushField file rfl
      refine ⟨formed.pushField known, extended, fresh .field, ?_⟩
      refine @Fits.field _ _ _ _ ⟨file.fields.size⟩ other (extended.linkedType linked)
        (Source.File.mem_fields_pushField known) compiledListed ?_
      rw [Source.File.addPlaceholderField, Source.File.fieldAt_pushField]
  | @call source _ _ name arity line linked compiledListed =>
      have known := formed.linkedMethod_known linked
      have extended : file.Extends (file.addPlaceholderInvocation source name arity line).1 :=
        Source.File.extends_pushInvocation file rfl
      refine ⟨formed.pushInvocation known, extended, fresh .invocation, ?_⟩
      exact .statement (extended.linkedMethod linked)
        (.standInCall (Source.File.mem_invocations_pushInvocation known) compiledListed
          (congrArg Source.Invocation.authoritative (Source.File.invocationAt_pushInvocation _)))
  | @allocation source _ _ type line linked compiledListed =>
      have known := formed.linkedMethod_known linked
      have extended : file.Extends (file.addPlaceholderAllocation source type line).1 :=
        Source.File.extends_pushAllocation file rfl
      refine ⟨formed.pushAllocation known, extended, fresh .allocation, ?_⟩
      exact .statement (extended.linkedMethod linked)
        (.standInAllocation (Source.File.mem_allocations_pushAllocation known) compiledListed
          (congrArg Source.Allocation.authoritative (Source.File.allocationAt_pushAllocation _)))

/-- What is open can be matched with its stand-in. -/
theorem StandsIn.accepts {setting : Setting} {state : State} {file : Source.File} {own : Source.Ref}
    {other : Compiled.Ref} (stands : StandsIn setting state.file file own other)
    (formed : state.file.WellFormed) (opened : state.isConsumed other = false) :
    ({ state with file } : State).accepts own other = true := by
  refine State.accepts_iff.mpr ⟨opened, ?_⟩
  rw [Source.File.isLinked, Source.File.link?, stands.links]
  exact (stands.added formed).2.2.1

/-- A step of matching a file.  Which source elements it may link is a parameter. -/
inductive Step (setting : Setting) (allowed : Source.Ref → Prop) : State → State → Prop where
  /-- A match of two elements that are not matched yet. -/
  | accept {state : State} {own : Source.Ref} {other : Compiled.Ref}
      (fits : Fits setting state.file own other) (permitted : allowed own)
      (accepted : state.accepts own other = true) :
      Step setting allowed state (state.record setting own other)
  /-- A match that is not made, for the compiled element is matched already. -/
  | reject {state : State} {own : Source.Ref} {other : Compiled.Ref}
      (fits : Fits setting state.file own other) (unlinked : state.file.isLinked own = false)
      (taken : state.isConsumed other = true) :
      Step setting allowed state (state.record setting own other)
  | note {state : State} (line : Option Nat) {finding : Finding}
      (fresh : finding.kind ≠ .redundantMatch) :
      Step setting allowed state (state.notice line finding)
  | aliased {state : State} (symbol slot : String) :
      Step setting allowed state (state.addAlias symbol slot)
  | compared {state : State} {exceeds : Bool}
      (asked : exceeds = true → MayExceed setting.pool setting.arities state.file) :
      Step setting allowed state (state.noteOverflow exceeds)
  /-- The bodies of two matched methods are about to be matched. -/
  | enter {state : State} {pair : MethodPair}
      (linked : state.file.linkedMethod? pair.1 = some pair.2) :
      Step setting allowed state (state.addPair pair)
  /-- The bodies of another type are about to be matched. -/
  | turn {state : State} : Step setting allowed state { state with pairs := [] }
  | standIn {state : State} {file : Source.File} {own : Source.Ref} {other : Compiled.Ref}
      (stands : StandsIn setting state.file file own other) (permitted : allowed own)
      (opened : state.isConsumed other = false) :
      Step setting allowed state ({ state with file }.record setting own other)
  | resolve {state : State} (usage : Source.Handle .typeUsage) (name : String) :
      Step setting allowed state { state with file := state.file.resolveUsage usage name }

/-- Steps one after the other. -/
abbrev Steps (setting : Setting) (allowed : Source.Ref → Prop) : State → State → Prop :=
  Relation.ReflTransGen (Step setting allowed)

/-! ### What every step keeps -/

/-- A well-formed file in which every link joins elements that fit. -/
structure Fitted (setting : Setting) (file : Source.File) : Prop where
  formed : file.WellFormed
  fits : ∀ element link, file.link? element = some link → Fits setting file element link.compiled

namespace Fitted

variable {setting : Setting} {file : Source.File}

theorem linkedMethod_of_isLinked (fitted : Fitted setting file) {method : Source.Handle .method}
    (linked : file.isLinked method.ref = true) :
    ∃ compiled, file.linkedMethod? method = some compiled := by
  obtain ⟨link, found⟩ := Source.File.exists_link linked
  obtain ⟨compiled, same, _⟩ := (fitted.fits _ link found).of_ownMethod
  obtain ⟨_, id⟩ := link
  obtain rfl := same
  exact ⟨compiled, Source.File.linkedMethod_iff.mpr ⟨id, found⟩⟩

theorem named_of_isLinked (fitted : Fitted setting file) {type : Source.Handle .type}
    (linked : file.isLinked type.ref = true) :
    ∃ compiled id, file.link? type.ref = some ⟨compiled.ref, id⟩ ∧
      setting.pool.typeNamed? (file.typeAt type).binaryName = some compiled := by
  obtain ⟨link, found⟩ := Source.File.exists_link linked
  obtain ⟨compiled, same, named⟩ := (fitted.fits _ link found).of_ownType
  obtain ⟨_, id⟩ := link
  obtain rfl := same
  exact ⟨compiled, id, found, named⟩

end Fitted

/-- What holds at all times while a file is matched after others. -/
structure State.Sound (setting : Setting) (done : List Source.File) (state : State) : Prop where
  pool : setting.pool.WellFormed
  index : setting.fileIndex = done.length
  earlier : ∀ file ∈ done, Fitted setting file
  current : Fitted setting state.file
  accounted : Accounted setting.pool (done ++ [state.file]) state.registry
  pairs : ∀ pair ∈ state.pairs, state.file.linkedMethod? pair.1 = some pair.2

theorem Fitted.extend {setting : Setting} {file later : Source.File} (fitted : Fitted setting file)
    (formed : later.WellFormed) (extended : file.Extends later)
    (links : ∀ element link, later.link? element = some link →
      file.link? element = some link ∨ Fits setting later element link.compiled) :
    Fitted setting later where
  formed := formed
  fits element link found := (links element link found).elim
    (fun before => (fitted.fits element link before).mono fitted.formed extended) id

namespace State.Sound

variable {setting : Setting} {done : List Source.File} {state : State}

/-- Notices, aliases and the like may change. -/
theorem of_same {later : State} (sound : state.Sound setting done)
    (file_kept : later.file = state.file) (registry_kept : later.registry = state.registry)
    (pairs : ∀ pair ∈ later.pairs, state.file.linkedMethod? pair.1 = some pair.2) :
    later.Sound setting done where
  pool := sound.pool
  index := sound.index
  earlier := sound.earlier
  current := file_kept ▸ sound.current
  accounted := by rw [file_kept, registry_kept]; exact sound.accounted
  pairs pair member := by rw [file_kept]; exact pairs pair member

/-- The file may gain what does not change its links. -/
theorem extend {file : Source.File} (sound : state.Sound setting done) (formed : file.WellFormed)
    (extended : state.file.Extends file) (links : file.links = state.file.links) :
    ({ state with file } : State).Sound setting done where
  pool := sound.pool
  index := sound.index
  earlier := sound.earlier
  current := sound.current.extend formed extended fun element link found => .inl (by
    rw [Source.File.link?, links] at found; exact found)
  accounted := sound.accounted.of_links (linkAt_congr_last done links)
  pairs pair member := extended.linkedMethod (sound.pairs pair member)

/-- A match of fitting elements. -/
theorem record {own : Source.Ref} {other : Compiled.Ref} (sound : state.Sound setting done)
    (fits : Fits setting state.file own other) (accepted : state.accepts own other = true) :
    (state.record setting own other).Sound setting done ∧
      state.Grows (state.record setting own other) := by
  obtain ⟨opened, unlinked⟩ := accepts_iff.mp accepted
  have linked := @link_record setting _ _ _ accepted
  have recorded := @record_of_accepts setting _ _ _ accepted
  have changed : state.file.setLink? own ⟨other, setting.pool.elementId other⟩ =
      some (state.record setting own other).file := by
    rw [recorded, Source.File.setLink?, if_neg (Bool.eq_false_iff.mp unlinked)]
  have extended := Source.File.extends_setLink changed
  refine ⟨?_, extended, fun element taken => ?_, ?_, ?_⟩
  · constructor
    case pool => exact sound.pool
    case index => exact sound.index
    case earlier => exact sound.earlier
    case current =>
      refine sound.current.extend (sound.current.formed.setLink
        (fits.known sound.current.formed) changed) extended fun element link found => ?_
      rw [linked] at found
      split at found
      · next same =>
        obtain rfl := Option.some.inj found
        exact .inr (same ▸ fits.mono sound.current.formed extended)
      · exact .inl found
    case accounted =>
      have booked := sound.accounted.record opened unlinked linked
      rw [← sound.index] at booked
      rw [recorded] at booked ⊢
      exact booked
    case pairs =>
      intro pair member
      rw [recorded] at member
      exact extended.linkedMethod (sound.pairs pair member)
  · exact (isConsumed_record accepted element).mpr (.inr taken)
  · rw [recorded]
    intro _
    exact id
  · rw [record_overflow]
    exact id

end State.Sound

/-- Every step keeps what holds at all times, and only adds. -/
theorem Step.sound {setting : Setting} {allowed : Source.Ref → Prop} {done : List Source.File}
    {state later : State} (step : Step setting allowed state later)
    (sound : state.Sound setting done) : later.Sound setting done ∧ state.Grows later := by
  cases step with
  | accept fits _ accepted => exact sound.record fits accepted
  | @reject own other fits unlinked taken =>
      rw [State.record_of_rejected (State.rejected_of_consumed taken)]
      refine ⟨sound.of_same rfl rfl sound.pairs, .refl _, fun _ => id, fun notice noted => ?_, id⟩
      exact Array.mem_push.mpr (.inl noted)
  | note line fresh =>
      refine ⟨sound.of_same rfl rfl sound.pairs, .refl _, fun _ => id, fun notice noted => ?_, id⟩
      exact Array.mem_push.mpr (.inl noted)
  | aliased symbol slot =>
      exact ⟨sound.of_same rfl rfl sound.pairs, .refl _, fun _ => id, fun _ => id, id⟩
  | @compared exceeds asked =>
      exact ⟨sound.of_same rfl rfl sound.pairs, .refl _, fun _ => id, fun _ => id,
        State.noteOverflow_kept exceeds⟩
  | enter linked =>
      refine ⟨sound.of_same rfl rfl fun pair member => ?_, .refl _, fun _ => id, fun _ => id, id⟩
      rcases (List.mem_append.mp member).imp_right List.mem_singleton.mp with before | rfl
      · exact sound.pairs pair before
      · exact linked
  | turn => exact ⟨sound.of_same rfl rfl nofun, .refl _, fun _ => id, fun _ => id, id⟩
  | @standIn file own other stands _ opened =>
      obtain ⟨formed, extended, _, fits⟩ := stands.added sound.current.formed
      have accepted := stands.accepts sound.current.formed opened
      obtain ⟨laterSound, grown⟩ := (sound.extend formed extended stands.links).record fits accepted
      have added : state.Grows { state with file } := ⟨extended, fun _ => id, fun _ => id, id⟩
      exact ⟨laterSound, added.trans grown⟩
  | resolve usage name =>
      have extended := Source.File.extends_resolveUsage state.file usage name
      exact ⟨sound.extend (sound.current.formed.resolveUsage usage name) extended rfl, extended,
        fun _ => id, fun _ => id, id⟩

/-- Only an allowed element gets a link. -/
theorem Step.link_new {setting : Setting} {allowed : Source.Ref → Prop} {state later : State}
    (step : Step setting allowed state later) (element : Source.Ref) (link : Source.Link)
    (found : later.file.link? element = some link) :
    state.file.link? element = some link ∨ allowed element := by
  have of_record {current : State} {own : Source.Ref} {other : Compiled.Ref}
      (recorded : (current.record setting own other).file.link? element = some link) :
      current.file.link? element = some link ∨ own = element := by
    cases accepted : current.accepts own other with
    | true =>
        rw [State.link_record accepted] at recorded
        split at recorded
        · next same => exact .inr same
        · exact .inl recorded
    | false =>
        rw [State.record_of_rejected accepted] at recorded
        exact .inl recorded
  cases step with
  | accept _ permission _ =>
      rcases of_record found with before | rfl
      · exact .inl before
      · exact .inr permission
  | reject _ unlinked taken =>
      rw [State.record_of_rejected (State.rejected_of_consumed taken)] at found
      exact .inl found
  | standIn stands permission _ =>
      rcases of_record found with before | rfl
      · rw [Source.File.link?, stands.links] at before
        exact .inl before
      · exact .inr permission
  | note | aliased | compared | enter | turn | resolve => exact .inl found

/-- A number that is no word is only asked for where a call has to be compared. -/
theorem Step.overflow_new {setting : Setting} {allowed : Source.Ref → Prop} {state later : State}
    (step : Step setting allowed state later) (raised : later.overflow = true) :
    state.overflow = true ∨ MayExceed setting.pool setting.arities state.file := by
  cases step with
  | compared asked => exact (Bool.or_eq_true_iff.mp raised).imp_right asked
  | accept | reject | standIn =>
      rw [State.record_overflow] at raised
      exact .inl raised
  | note | aliased | enter | turn | resolve => exact .inl raised

namespace Steps

variable {setting : Setting} {allowed : Source.Ref → Prop} {done : List Source.File}
  {state later : State}

theorem sound_grows (steps : Steps setting allowed state later) (sound : state.Sound setting done) :
    later.Sound setting done ∧ state.Grows later := by
  induction steps with
  | refl => exact ⟨sound, .refl _⟩
  | tail _ step inductionHypothesis =>
      obtain ⟨laterSound, grown⟩ := step.sound inductionHypothesis.1
      exact ⟨laterSound, inductionHypothesis.2.trans grown⟩

theorem sound (steps : Steps setting allowed state later) (start : state.Sound setting done) :
    later.Sound setting done :=
  (steps.sound_grows start).1

theorem grows (steps : Steps setting allowed state later) (start : state.Sound setting done) :
    state.Grows later :=
  (steps.sound_grows start).2

theorem mono {permitted : Source.Ref → Prop} (weaker : ∀ own, allowed own → permitted own)
    (steps : Steps setting allowed state later) : Steps setting permitted state later := by
  refine Relation.ReflTransGen.mono (fun _ _ step => ?_) _ _ steps
  cases step with
  | accept fits permission accepted => exact .accept fits (weaker _ permission) accepted
  | reject fits unlinked taken => exact .reject fits unlinked taken
  | note line fresh => exact .note line fresh
  | aliased symbol slot => exact .aliased symbol slot
  | compared asked => exact .compared asked
  | enter linked => exact .enter linked
  | turn => exact .turn
  | standIn stands permission opened => exact .standIn stands (weaker _ permission) opened
  | resolve usage name => exact .resolve usage name

theorem overflow_new (steps : Steps setting allowed state later) (sound : state.Sound setting done)
    (raised : later.overflow = true) :
    state.overflow = true ∨ MayExceed setting.pool setting.arities later.file := by
  induction steps with
  | refl => exact .inl raised
  | tail before step inductionHypothesis =>
      have extended := (step.sound (Steps.sound before sound)).2.extended
      rcases step.overflow_new raised with earlier | asked
      · exact (inductionHypothesis earlier).imp_right fun asked => asked.mono extended
      · exact .inr (asked.mono extended)

/-- Only allowed elements get links. -/
theorem link_new (steps : Steps setting allowed state later) (element : Source.Ref)
    (link : Source.Link) (found : later.file.link? element = some link) :
    state.file.link? element = some link ∨ allowed element := by
  induction steps with
  | refl => exact .inl found
  | tail _ step inductionHypothesis =>
      exact (step.link_new element link found).elim inductionHypothesis .inr

theorem unlinked (steps : Steps setting allowed state later) {element : Source.Ref}
    (before : state.file.isLinked element = false) (untouched : ¬ allowed element) :
    later.file.isLinked element = false := by
  rw [Bool.eq_false_iff] at before ⊢
  intro linked
  obtain ⟨link, found⟩ := Source.File.exists_link linked
  rcases steps.link_new element link found with old | permission
  · exact before (Source.File.isLinked_of_link old)
  · exact untouched permission

end Steps

/-- Matches of elements that fit are steps. -/
theorem LinkSteps.steps {setting : Setting} {permitted : Source.Ref → Compiled.Ref → Prop}
    {allowed : Source.Ref → Prop} {state later : State}
    (links : LinkSteps setting permitted state later) (formed : state.file.WellFormed)
    (fits : ∀ own other, permitted own other → Fits setting state.file own other ∧ allowed own) :
    Steps setting allowed state later := by
  induction links with
  | refl => exact .refl
  | tail before step inductionHypothesis =>
      have gained := LinkSteps.gains before
      apply inductionHypothesis.tail
      cases step with
      | accept permission accepted =>
          obtain ⟨fit, allowance⟩ := fits _ _ permission
          have extended := Source.File.Extends.of_relinked gained.relinked gained.link_kept
          exact .accept (fit.mono formed extended) allowance accepted
      | note line fresh => exact .note line fresh
      | aliased symbol slot => exact .aliased symbol slot
      | compared asked => exact .compared asked

end Correlate.Matching
