/-
Module: Correlate.Proofs.Matching.Passes
Purpose: What is done while a file is matched, one undertaking after the other.
Main exports: Sought, Owed, Placed, Pass, Passes, State.Sound.opened, Pass.steps, Passes.sound_grows
-/
import Correlate.Proofs.Matching.Bodies

namespace Correlate.Matching

/-!
A `Step` says what becomes of the links.  A `Pass` says on what occasion: types and lambdas are
offered what they fit and may come too late, members are matched among what is open, the statements
of two bodies are matched all at once, and stand-ins are given the data of what they stand for.
-/

/-- Every element may be linked. -/
def anyElement (_ : Source.Ref) : Prop := True

theorem Steps.any {setting : Setting} {allowed : Source.Ref → Prop} {state later : State}
    (steps : Steps setting allowed state later) : Steps setting anyElement state later :=
  steps.mono fun _ _ => trivial

/-- A type, a field, a method or a lambda. -/
def IsMember (element : Source.Ref) : Prop :=
  element.kind = .type ∨ element.kind = .field ∨ element.kind = .method

/-! ### Types and lambdas -/

/-- What a type or a lambda is to be matched with, whether or not that is open: the compiled type of
its name, and the method that implements the compiled lambda at its place. -/
inductive Sought (setting : Setting) (file : Source.File) : Source.Ref → Compiled.Ref → Prop where
  | type {own : Source.Handle .type} {other : Compiled.Handle .type}
      (known : own.index < file.types.size)
      (named : setting.pool.typeNamed? (file.typeAt own).binaryName = some other) :
      Sought setting file own other
  | lambda {outer : Source.Handle .method} {compiled : Compiled.Handle .method}
      {place : Compiled.Handle .lambda} {own : Source.Handle .method}
      {other : Compiled.Handle .method}
      (isLambda : (file.methodAt own).kind = .lambda)
      (linked : file.linkedMethod? outer = some compiled)
      (listed : own ∈ (file.methodAt outer).lambdas)
      (compiledListed : place ∈ (setting.pool.methodAt compiled).lambdas)
      (implemented : (setting.pool.lambdaAt place).implementation = some other)
      (room : (file.methodAt own).arity ≤ (setting.pool.methodAt other).arity) :
      Sought setting file own other

namespace Sought

variable {setting : Setting} {file : Source.File} {own : Source.Ref} {other : Compiled.Ref}

theorem fits (sought : Sought setting file own other) : Fits setting file own other := by
  cases sought with
  | type known named => exact .type known named
  | lambda _ linked listed compiledListed implemented room =>
      exact .lambda linked listed compiledListed implemented room

theorem isMember (sought : Sought setting file own other) : IsMember own := by
  cases sought with
  | type => exact .inl rfl
  | lambda => exact .inr (.inr rfl)

end Sought

/-! ### Stand-ins -/

/-- A call or an allocation of a compiled method whose line is known. -/
inductive Site (pool : Compiled.Pool) (compiled : Compiled.Handle .method) : Compiled.Ref → Prop where
  | call {other : Compiled.Handle .invocation} {line : Nat}
      (listed : other ∈ (pool.methodAt compiled).invocations)
      (hinted : (pool.invocationAt other).line = some line) : Site pool compiled other
  | allocation {other : Compiled.Handle .allocation} {line : Nat}
      (listed : other ∈ (pool.methodAt compiled).allocations)
      (hinted : (pool.allocationAt other).line = some line) : Site pool compiled other

/-- A compiled element that gets a stand-in where nothing else takes it: a field of a linked type, or
a site of a linked method whose body is matched. -/
inductive Owed (pool : Compiled.Pool) (file : Source.File) : Compiled.Ref → Prop where
  | field {type : Source.Handle .type} {compiledType : Compiled.Handle .type}
      {other : Compiled.Handle .field} (linked : file.linkedType? type = some compiledType)
      (listed : other ∈ (pool.typeAt compiledType).fields) : Owed pool file other
  | site {source : Source.Handle .method} {compiled : Compiled.Handle .method} {other : Compiled.Ref}
      (linked : file.linkedMethod? source = some compiled)
      (shallow : file.nestingDepth source ≤ maxLambdaNesting) (isSite : Site pool compiled other) :
      Owed pool file other

/-- A file gets a stand-in that tells the same as the compiled element it stands for. -/
inductive Placed (setting : Setting) (file : Source.File) :
    Source.File → Source.Ref → Compiled.Ref → Prop where
  | field {type : Source.Handle .type} {compiledType : Compiled.Handle .type}
      {other : Compiled.Handle .field}
      (linked : file.linkedType? type = some compiledType)
      (compiledListed : other ∈ (setting.pool.typeAt compiledType).fields) :
      Placed setting file
        (file.addPlaceholderField type (setting.pool.fieldAt other).name
          (setting.pool.fieldAt other).type).1
        ⟨.field, file.fields.size⟩ other
  | call {source : Source.Handle .method} {compiled : Compiled.Handle .method}
      {other : Compiled.Handle .invocation} {line : Nat}
      (linked : file.linkedMethod? source = some compiled)
      (shallow : file.nestingDepth source ≤ maxLambdaNesting)
      (compiledListed : other ∈ (setting.pool.methodAt compiled).invocations)
      (hinted : (setting.pool.invocationAt other).line = some line) :
      Placed setting file
        (file.addPlaceholderInvocation source (setting.pool.invocationAt other).name
          (setting.pool.invocationAt other).arity line).1
        ⟨.invocation, file.invocations.size⟩ other
  | allocation {source : Source.Handle .method} {compiled : Compiled.Handle .method}
      {other : Compiled.Handle .allocation} {line : Nat}
      (linked : file.linkedMethod? source = some compiled)
      (shallow : file.nestingDepth source ≤ maxLambdaNesting)
      (compiledListed : other ∈ (setting.pool.methodAt compiled).allocations)
      (hinted : (setting.pool.allocationAt other).line = some line) :
      Placed setting file
        (file.addPlaceholderAllocation source (setting.pool.allocationAt other).type line).1
        ⟨.allocation, file.allocations.size⟩ other

theorem Placed.standsIn {setting : Setting} {file later : Source.File} {own : Source.Ref}
    {other : Compiled.Ref} (placed : Placed setting file later own other) :
    StandsIn setting file later own other := by
  cases placed with
  | field linked compiledListed => exact .field _ linked compiledListed
  | call linked _ compiledListed _ => exact .call _ _ _ linked compiledListed
  | allocation linked _ compiledListed _ => exact .allocation _ _ linked compiledListed

/-! ### Passes -/

/-- A pass of matching a file. -/
inductive Pass (setting : Setting) : State → State → Prop where
  /-- A type or a lambda is matched, unless what it seeks is taken. -/
  | offer {state : State} {own : Source.Ref} {other : Compiled.Ref}
      (sought : Sought setting state.file own other)
      (unlinked : state.file.isLinked own = false) :
      Pass setting state (state.record setting own other)
  /-- Members are matched with what is open.  They stand for no slots. -/
  | members {permitted : Source.Ref → Compiled.Ref → Prop} {state later : State}
      (fits : ∀ own other, permitted own other →
        Fits setting state.file own other ∧ IsMember own)
      (links : LinkSteps setting permitted state later)
      (aliases : later.aliases = state.aliases) : Pass setting state later
  /-- The bodies of another type are about to be matched. -/
  | turn {state : State} : Pass setting state { state with pairs := [] }
  | statements {state : State} {pair : MethodPair}
      (linked : state.file.linkedMethod? pair.1 = some pair.2)
      (untouched : state.file.Untouched pair.1) :
      Pass setting state (state.matchStatements setting pair.1 pair.2)
  | outerThis {state : State} {pair : MethodPair}
      (linked : state.file.linkedMethod? pair.1 = some pair.2) :
      Pass setting state (state.matchOuterThis setting pair)
  | arrays {state : State} {pair : MethodPair}
      (linked : state.file.linkedMethod? pair.1 = some pair.2) :
      Pass setting state (state.matchReflectiveArrays setting pair)
  | standIn {state : State} {file : Source.File} {own : Source.Ref} {other : Compiled.Ref}
      (placed : Placed setting state.file file own other)
      (opened : state.isConsumed other = false) :
      Pass setting state ({ state with file }.record setting own other)
  | resolve {state : State} (usage : Source.Handle .typeUsage) (name : String) :
      Pass setting state { state with file := state.file.resolveUsage usage name }

/-- Passes one after the other. -/
abbrev Passes (setting : Setting) : State → State → Prop :=
  Relation.ReflTransGen (Pass setting)

/-- Something is noted that is no match. -/
theorem Passes.note {setting : Setting} {state : State} (line : Option Nat) {finding : Finding}
    (fresh : finding.kind ≠ .redundantMatch) : Passes setting state (state.notice line finding) :=
  .single (.members (fun _ _ => False.elim) (.single (.note line fresh)) rfl)

/-! ### Entering a body -/

/-!
When the body of a method is entered, nothing in it is linked.  The compiled elements of the matched
method are open then: only the body of the one method that is linked to it can take them.
-/

namespace State.Sound

variable {setting : Setting} {done : List Source.File} {state : State}

theorem fitted (sound : state.Sound setting done) {file : Source.File}
    (member : file ∈ done ++ [state.file]) : Fitted setting file := by
  rcases (List.mem_append.mp member).imp_right List.mem_singleton.mp with before | rfl
  · exact sound.earlier file before
  · exact sound.current

/-- Nothing in the body of a method without a link is linked. -/
theorem untouched_of_unlinked (sound : state.Sound setting done) {method : Source.Handle .method}
    (unlinked : state.file.isLinked method.ref = false) : state.file.Untouched method := by
  have formed := sound.current.formed
  intro element owned
  rw [Bool.eq_false_iff]
  intro linked
  obtain ⟨link, found⟩ := Source.File.exists_link linked
  have fits := sound.current.fits element link found
  generalize link.compiled = other at fits
  cases fits with
  | type | field => cases owned
  | method _ listed _ _ _ =>
      have outermost := formed.parent_of_listed listed
      cases outermost.symm.trans owned
  | lambda outerLinked listed _ _ _ =>
      obtain rfl := Option.some.inj ((formed.mem_lambdas.mp listed).2.symm.trans owned)
      exact Source.File.not_linkedMethod_of_unlinked unlinked outerLinked
  | statement holderLinked fits =>
      obtain rfl := Option.some.inj ((fits.owner formed).2.symm.trans owned)
      exact Source.File.not_linkedMethod_of_unlinked unlinked holderLinked

/-- Nor is anything linked in the bodies of the lambdas inside an untouched method. -/
theorem unlinked_of_inside (sound : state.Sound setting done) {method : Source.Handle .method}
    (untouched : state.file.Untouched method) {element : Source.Ref}
    (inside : state.file.Inside method element) : state.file.isLinked element = false := by
  obtain ⟨holder, owned, within⟩ := inside
  induction within generalizing element with
  | refl => exact untouched element owned
  | @tail _ lambda _ inside inductionHypothesis =>
      exact sound.untouched_of_unlinked (inductionHypothesis inside) element owned

/-- Where nothing in the body of a linked method is linked, nothing of its compiled method is taken:
no other method is linked to that. -/
theorem opened (sound : state.Sound setting done) {source : Source.Handle .method}
    {compiled : Compiled.Handle .method}
    (linked : state.file.linkedMethod? source = some compiled)
    (untouched : state.file.Untouched source) {other : Compiled.Ref}
    (owned : setting.pool.owningMethod? other = some compiled) :
    state.isConsumed other = false := by
  rw [Bool.eq_false_iff]
  intro taken
  obtain ⟨⟨i, element⟩, link, linkedThere, rfl⟩ := sound.accounted.isConsumed_iff.mp taken
  obtain ⟨file, isFile, found⟩ := Option.bind_eq_some_iff.mp linkedThere
  have fitted := sound.fitted (List.mem_of_getElem? isFile)
  have fits := fitted.fits element link found
  generalize isOther : link.compiled = other at fits owned
  cases fits with
  | type | field | method | lambda => cases owned
  | @statement holder holderCompiled _ _ holderLinked fits =>
      obtain rfl := Option.some.inj ((fits.compiledOwner sound.pool).symm.trans owned)
      obtain ⟨holderId, holderFound⟩ := Source.File.linkedMethod_iff.mp holderLinked
      obtain ⟨id, sourceFound⟩ := Source.File.linkedMethod_iff.mp linked
      have same := sound.accounted.once
        (show linkAt (done ++ [state.file]) ⟨i, holder.ref⟩ = some _ from
          Option.bind_eq_some_iff.mpr ⟨file, isFile, holderFound⟩)
        ((linkAt_last done state.file source.ref).trans sourceFound) rfl
      obtain ⟨rfl, isHolder⟩ := SourceHandle.mk.inj same
      obtain rfl := ref_injective isHolder
      rw [List.getElem?_append_right (Nat.le_refl _), Nat.sub_self] at isFile
      obtain rfl := Option.some.inj isFile
      have absent := untouched element (fits.owner fitted.formed).2
      exact Source.File.not_link_of_unlinked absent found

end State.Sound

/-! ### Passes are steps -/

/-- An element that is neither a type nor a method. -/
def IsDetail (element : Source.Ref) : Prop :=
  element.kind ≠ .type ∧ element.kind ≠ .method

section Passes

variable {setting : Setting} {done : List Source.File} {state later : State}

/-- Matches inside two matched methods are steps. -/
theorem detail_steps {pair : MethodPair} (formed : state.file.WellFormed)
    (linked : state.file.linkedMethod? pair.1 = some pair.2)
    (links : LinkSteps setting (StatementFits setting state.file pair.1 pair.2) state later) :
    Steps setting IsDetail state later :=
  links.steps formed fun _ _ fits => ⟨.statement linked fits, fits.kind_ne.1, fits.kind_ne.2.2⟩

/-- Every pass is a sequence of steps. -/
theorem Pass.steps (sound : state.Sound setting done) (pass : Pass setting state later) :
    Steps setting anyElement state later := by
  have formed := sound.current.formed
  cases pass with
  | @offer _ own other sought unlinked =>
      cases accepted : state.accepts own other with
      | true => exact .single (.accept sought.fits trivial accepted)
      | false =>
          have taken := State.consumed_of_rejected unlinked accepted
          exact .single (.reject sought.fits unlinked taken)
  | members fits links =>
      exact links.steps formed fun own other permitted => ⟨(fits own other permitted).1, trivial⟩
  | turn => exact .single .turn
  | statements linked untouched =>
      obtain ⟨links, _⟩ := State.matchStatements_links formed sound.pool untouched
        fun other => sound.opened linked untouched
      exact .head (.enter linked)
        (links.steps formed fun own other fits => ⟨.statement linked fits, trivial⟩)
  | outerThis linked =>
      exact (detail_steps formed linked (State.matchOuterThis_links formed _)).any
  | arrays linked =>
      exact (detail_steps formed linked (State.matchReflectiveArrays_links formed sound.pool _)).any
  | standIn placed opened => exact .single (.standIn placed.standsIn trivial opened)
  | resolve usage name => exact .single (.resolve usage name)

/-- What holds at all times holds after passes, which only add. -/
theorem Passes.sound_grows (sound : state.Sound setting done) (passes : Passes setting state later) :
    later.Sound setting done ∧ state.Grows later := by
  induction passes with
  | refl => exact ⟨sound, .refl state⟩
  | tail _ pass inductionHypothesis =>
      obtain ⟨laterSound, grown⟩ := (pass.steps inductionHypothesis.1).sound_grows inductionHypothesis.1
      exact ⟨laterSound, inductionHypothesis.2.trans grown⟩

end Passes

end Correlate.Matching
