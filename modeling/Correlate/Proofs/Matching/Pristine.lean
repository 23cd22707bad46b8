/-
Module: Correlate.Proofs.Matching.Pristine
Purpose: What matching leaves alone: whatever has no link, and whatever only stand-ins are placed for.
Main exports: State.Pristine, Steps.pristine, State.Sound.parts_open, State.Sound.open_before, Fills,
  State.standInForFields_fills, State.standInForSites_fills
-/
import Correlate.Proofs.Matching.Courses

namespace Correlate

namespace Source.File

theorem typeAt_changeType_of_ne (file : File) {owner type : Handle .type} (different : type ≠ owner)
    (change : TypeDecl → TypeDecl) : (file.changeType owner change).typeAt type = file.typeAt type := by
  have apart : owner.index ≠ type.index := fun same => different (Handle.index_injective same.symm)
  simp [File.typeAt, changeType, Array.getElem?_modify, apart]

theorem methodAt_changeMethod_of_ne (file : File) {holder method : Handle .method}
    (different : method ≠ holder) (change : Method → Method) :
    (file.changeMethod holder change).methodAt method = file.methodAt method := by
  have apart : holder.index ≠ method.index := fun same => different (Handle.index_injective same.symm)
  simp [File.methodAt, changeMethod, Array.getElem?_modify, apart]

end Source.File

namespace Matching

/-! ### What has no link -/

/-- Types and methods without a link are as in the given file.  Only what is linked gets stand-ins. -/
structure State.Pristine (file : Source.File) (state : State) : Prop where
  types : ∀ type : Source.Handle .type, state.file.isLinked type.ref = false →
    state.file.typeAt type = file.typeAt type
  methods : ∀ method : Source.Handle .method, state.file.isLinked method.ref = false →
    state.file.methodAt method = file.methodAt method

namespace State.Pristine

variable {setting : Setting} {file : Source.File} {state : State}

/-- More links may be made. -/
theorem relinked {later : State} (pristine : state.Pristine file)
    (same : state.file.Relinked later.file)
    (kept : ∀ element, state.file.isLinked element = true → later.file.isLinked element = true) :
    later.Pristine file := by
  have before {element : Source.Ref} (unlinked : later.file.isLinked element = false) :
      state.file.isLinked element = false := by
    rw [Bool.eq_false_iff] at unlinked ⊢
    exact unlinked ∘ kept element
  constructor
  · intro type unlinked
    rw [same.typeAt]
    exact pristine.types type (before unlinked)
  · intro method unlinked
    rw [same.methodAt]
    exact pristine.methods method (before unlinked)

theorem record (pristine : state.Pristine file) (own : Source.Ref) (other : Compiled.Ref) :
    (state.record setting own other).Pristine file :=
  pristine.relinked (State.record_relinked setting state own other)
    fun _ => (State.record_extends setting state own other).isLinked

/-- What gets a stand-in has a link. -/
theorem standsIn {later : Source.File} {own : Source.Ref} {other : Compiled.Ref}
    (pristine : state.Pristine file) (stands : StandsIn setting state.file later own other) :
    ({ state with file := later } : State).Pristine file := by
  cases stands with
  | @field holder _ _ _ linked _ =>
      refine ⟨fun type unlinked => ?_, pristine.methods⟩
      rw [← pristine.types type unlinked]
      apply Source.File.typeAt_changeType_of_ne
      rintro rfl
      exact Source.File.not_linkedType_of_unlinked unlinked linked
  | call _ _ _ linked _ | allocation _ _ linked _ =>
      refine ⟨pristine.types, fun method unlinked => ?_⟩
      rw [← pristine.methods method unlinked]
      apply Source.File.methodAt_changeMethod_of_ne
      rintro rfl
      exact Source.File.not_linkedMethod_of_unlinked unlinked linked

end State.Pristine

theorem Step.pristine {setting : Setting} {allowed : Source.Ref → Prop} {file : Source.File}
    {state later : State} (step : Step setting allowed state later)
    (pristine : state.Pristine file) : later.Pristine file := by
  cases step with
  | accept | reject => exact pristine.record _ _
  | standIn stands _ _ => exact (pristine.standsIn stands).record _ _
  | note | aliased | compared | enter | turn | resolve => exact ⟨pristine.types, pristine.methods⟩

theorem Steps.pristine {setting : Setting} {allowed : Source.Ref → Prop} {file : Source.File}
    {state later : State} (steps : Steps setting allowed state later)
    (pristine : state.Pristine file) : later.Pristine file := by
  induction steps with
  | refl => exact pristine
  | tail _ step inductionHypothesis => exact step.pristine inductionHypothesis

namespace State.Sound

variable {setting : Setting} {done : List Source.File} {state later : State}

/-- What is inside a compiled method that is not taken is not taken. -/
theorem parts_open (sound : state.Sound setting done) {compiled : Compiled.Handle .method}
    (opened : state.isConsumed compiled.ref = false) {other : Compiled.Ref}
    (owned : setting.pool.owningMethod? other = some compiled) : state.isConsumed other = false := by
  rw [Bool.eq_false_iff] at opened ⊢
  intro taken
  obtain ⟨⟨i, element⟩, link, linkedThere, rfl⟩ := sound.accounted.isConsumed_iff.mp taken
  obtain ⟨file, isFile, found⟩ := Option.bind_eq_some_iff.mp linkedThere
  have fits := (sound.fitted (List.mem_of_getElem? isFile)).fits element link found
  generalize link.compiled = other at fits owned
  cases fits with
  | type | field | method | lambda => cases owned
  | @statement holder holderCompiled _ _ holderLinked fits =>
      obtain rfl := Option.some.inj ((fits.compiledOwner sound.pool).symm.trans owned)
      obtain ⟨id, holderFound⟩ := Source.File.linkedMethod_iff.mp holderLinked
      exact opened (sound.accounted.isConsumed_iff.mpr ⟨⟨i, holder.ref⟩, _,
        Option.bind_eq_some_iff.mpr ⟨file, isFile, holderFound⟩, rfl⟩)

/-- An element that gets its link later on gets linked to what is open before. -/
theorem open_before (sound : state.Sound setting done) (laterSound : later.Sound setting done)
    (grown : state.Grows later) {element : Source.Ref} {link : Source.Link}
    (unlinked : state.file.isLinked element = false)
    (found : later.file.link? element = some link) : state.isConsumed link.compiled = false := by
  rw [Bool.eq_false_iff]
  intro taken
  obtain ⟨handle, old, linkedBefore, same⟩ := sound.accounted.isConsumed_iff.mp taken
  have kept : linkAt (done ++ [later.file]) handle = some old :=
    linkAt_append_single.mpr ((linkAt_append_single.mp linkedBefore).imp_right fun last =>
      ⟨last.1, grown.extended.links _ _ last.2⟩)
  obtain rfl := laterSound.accounted.once kept ((linkAt_last done later.file element).trans found) same
  rw [linkAt_last] at linkedBefore
  exact Source.File.not_link_of_unlinked unlinked linkedBefore

end State.Sound

/-! ### What only stand-ins are placed for -/

/-- The run takes some compiled elements for stand-ins, unless they are taken already.  The elements of
the given file, which the current one extends, are left alone. -/
structure Fills (setting : Setting) (file : Source.File) (taken : Compiled.Ref → Prop)
    (state later : State) : Prop where
  steps : Steps setting anyElement state later
  pairs : later.pairs = state.pairs
  links : ∀ element, element.index < file.count element.kind →
    later.file.link? element = state.file.link? element
  consumed : ∀ element, later.isConsumed element = true ↔
    state.isConsumed element = true ∨ taken element

namespace Fills

variable {setting : Setting} {done : List Source.File} {file : Source.File}
  {taken more : Compiled.Ref → Prop} {state later final : State}

theorem refl (state : State) : Fills setting file (fun _ => False) state state :=
  ⟨.refl, rfl, fun _ _ => rfl, fun _ => (or_iff_left id).symm⟩

theorem trans (first : Fills setting file taken state later)
    (second : Fills setting file more later final) :
    Fills setting file (fun element => taken element ∨ more element) state final where
  steps := first.steps.trans second.steps
  pairs := second.pairs.trans first.pairs
  links element known := (second.links element known).trans (first.links element known)
  consumed element := by rw [second.consumed, first.consumed, or_assoc]

theorem congr (fills : Fills setting file taken state later)
    (same : ∀ element, taken element ↔ more element) : Fills setting file more state later :=
  { fills with consumed := fun element => by rw [fills.consumed, same] }

/-- Nothing is done for what is taken already. -/
theorem of_taken {other : Compiled.Ref} (isTaken : state.isConsumed other = true) :
    Fills setting file (· = other) state state where
  steps := .refl
  pairs := rfl
  links _ _ := rfl
  consumed element := by
    refine ⟨.inl, fun either => either.elim id ?_⟩
    rintro rfl
    exact isTaken

/-- A stand-in is a new element. -/
theorem of_standsIn {later : Source.File} {own : Source.Ref} {other : Compiled.Ref}
    (sound : state.Sound setting done) (extended : file.Extends state.file)
    (stands : StandsIn setting state.file later own other)
    (opened : state.isConsumed other = false) :
    Fills setting file (· = other) state ({ state with file := later }.record setting own other) := by
  have accepted := stands.accepts sound.current.formed opened
  constructor
  case steps => exact .single (.standIn stands trivial opened)
  case pairs => exact State.record_pairs _ _ _ _
  case links =>
    intro element known
    have different : own ≠ element := by
      rintro rfl
      rw [stands.index] at known
      exact absurd (extended.count_le own.kind) (Nat.not_le_of_lt known)
    rw [State.link_record accepted, if_neg different, Source.File.link?, stands.links]
    rfl
  case consumed =>
    intro element
    rw [State.isConsumed_record accepted, or_comm, @eq_comm _ other]
    exact Iff.rfl

/-- Stand-ins for one item after the other. -/
theorem foldl {γ : Type} {step : State → γ → State} {takes : γ → Compiled.Ref → Prop}
    (items : List γ) (sound : state.Sound setting done) (extended : file.Extends state.file)
    (each : ∀ item ∈ items, ∀ current, current.Sound setting done → state.Grows current →
      file.Extends current.file → Fills setting file (takes item) current (step current item)) :
    Fills setting file (fun element => ∃ item ∈ items, takes item element) state
      (items.foldl step state) := by
  induction items generalizing state with
  | nil => exact (refl state).congr fun element => by simp
  | cons item rest inductionHypothesis =>
      have first := each item List.mem_cons_self state sound (.refl state) extended
      have grown := first.steps.grows sound
      have others := inductionHypothesis (first.steps.sound sound) (extended.trans grown.extended)
        fun next member current currentSound more =>
          each next (List.mem_cons_of_mem _ member) current currentSound (grown.trans more)
      exact (first.trans others).congr fun element => by simp

end Fills

namespace State

variable {setting : Setting} {done : List Source.File} {file : Source.File} {state : State}

/-- Stand-ins are placed for the fields that are open. -/
theorem standInForFields_fills {type : Source.Handle .type} {compiledType : Compiled.Handle .type}
    (sound : state.Sound setting done) (extended : file.Extends state.file)
    (linked : state.file.linkedType? type = some compiledType) :
    Fills setting file (fun element => ∃ field ∈ (setting.pool.typeAt compiledType).fields,
        element = field.ref) state
      ((setting.pool.typeAt compiledType).fields.foldl (standInForField setting type) state) := by
  apply Fills.foldl _ sound extended
  intro field listed current currentSound grown currentExtended
  unfold standInForField
  split
  · next isTaken => exact .of_taken isTaken
  · next opened =>
    exact .of_standsIn currentSound currentExtended
      (.field _ (grown.extended.linkedType linked) listed) (Bool.eq_false_iff.mpr opened)

/-- A stand-in is only placed on a known line, and only for what is open. -/
theorem fills_of_hint {hint : Option Nat} {other : Compiled.Ref} {placed : Nat → State} {final : State}
    (shape : final = match hint with
      | some line => if state.isConsumed other then state else placed line
      | none => state)
    (advance : ∀ line, state.isConsumed other = false →
      Fills setting file (· = other) state (placed line)) :
    Fills setting file (fun element => element = other ∧ hint.isSome = true) state final := by
  cases hint with
  | none =>
      rw [shape]
      exact (Fills.refl state).congr fun element => by simp
  | some line =>
      have one (element : Compiled.Ref) : element = other ↔
          element = other ∧ (some line).isSome = true := by simp
      cases taken : state.isConsumed other with
      | true =>
          simp only [taken, if_true] at shape
          rw [shape]
          exact (Fills.of_taken taken).congr one
      | false =>
          simp only [taken, Bool.false_eq_true, if_false] at shape
          rw [shape]
          exact (advance line taken).congr one

/-- Stand-ins are placed for the sites that are open. -/
theorem standInForSites_fills {source : Source.Handle .method} {compiled : Compiled.Handle .method}
    (sound : state.Sound setting done) (extended : file.Extends state.file)
    (linked : state.file.linkedMethod? source = some compiled) :
    Fills setting file (Site setting.pool compiled) state
      (state.standInForSites setting (source, compiled)) := by
  let method := setting.pool.methodAt compiled
  let calls := method.invocations.foldl (standInForCall setting source) state
  have callsFilled : Fills setting file (fun element => ∃ call ∈ method.invocations,
        element = call.ref ∧ (setting.pool.invocationAt call).line.isSome = true) state calls := by
    apply Fills.foldl _ sound extended
    intro call listed current currentSound grown currentExtended
    refine fills_of_hint rfl fun line opened => .of_standsIn currentSound currentExtended ?_ opened
    exact .call _ _ line (grown.extended.linkedMethod linked) listed
  have called := callsFilled.steps.grows sound
  have allocationsFilled : Fills setting file (fun element => ∃ allocation ∈ method.allocations,
        element = allocation.ref ∧ (setting.pool.allocationAt allocation).line.isSome = true) calls
      (state.standInForSites setting (source, compiled)) := by
    apply Fills.foldl _ (callsFilled.steps.sound sound) (extended.trans called.extended)
    intro allocation listed current currentSound grown currentExtended
    refine fills_of_hint rfl fun line opened => .of_standsIn currentSound currentExtended ?_ opened
    exact .allocation _ line ((called.trans grown).extended.linkedMethod linked) listed
  refine (callsFilled.trans allocationsFilled).congr fun element => ⟨?_, fun isSite => ?_⟩
  · rintro (⟨call, listed, rfl, hinted⟩ | ⟨allocation, listed, rfl, hinted⟩)
    · exact .call listed (Option.some_get hinted).symm
    · exact .allocation listed (Option.some_get hinted).symm
  · cases isSite with
    | call listed hinted => exact .inl ⟨_, listed, rfl, by rw [hinted]; rfl⟩
    | allocation listed hinted => exact .inr ⟨_, listed, rfl, by rw [hinted]; rfl⟩

/-- Resolving names takes nothing. -/
theorem resolveUsages_fills (type : Source.Handle .type) (compiledType : Compiled.Handle .type) :
    Fills setting file (fun _ => False) state
      { state with file := resolveUsages setting.pool type compiledType state.file } := by
  let usages := (state.file.typeAt type).typeUsages
  constructor
  case steps =>
    exact (@resolveUsages_course setting anyElement (setting.pool.typeAt compiledType) usages
      state).steps
  case pairs => rfl
  case links =>
    intro element _
    exact congrArg (·[element]?)
      (foldl_resolveUsageIn setting.pool (setting.pool.typeAt compiledType) usages state.file).2
  case consumed => exact fun _ => (or_iff_left id).symm

end State

end Matching

end Correlate
