/-
Module: Correlate.Proofs.Matching.Courses
Purpose: What is matched, and what gets a stand-in, outside the bodies of methods.
Main exports: Course, foldl_courses, FieldsTaken, SitesTaken, State.matchFields_course,
  State.settleBodies_course
-/
import Correlate.Proofs.Matching.Additions
import Correlate.Proofs.Matching.Members
import Correlate.Proofs.Matching.Passes

namespace Correlate.Matching

/-!
Fields are matched before the bodies.  After these come the elements that no single body settles, and
stand-ins for whatever is still open.  No stand-in is missing then: every field of the type and every
site of the methods is taken.
-/

/-- Steps outside the bodies of methods.  Which bodies were matched is remembered as it was. -/
structure Course (setting : Setting) (allowed : Source.Ref → Prop) (state later : State) : Prop where
  steps : Steps setting allowed state later
  passes : Passes setting state later
  pairs : later.pairs = state.pairs

variable {setting : Setting} {done : List Source.File} {allowed : Source.Ref → Prop}
  {state later final : State}

namespace Course

theorem refl (state : State) : Course setting allowed state state :=
  ⟨.refl, .refl, rfl⟩

theorem trans (first : Course setting allowed state later)
    (second : Course setting allowed later final) : Course setting allowed state final where
  steps := first.steps.trans second.steps
  passes := first.passes.trans second.passes
  pairs := second.pairs.trans first.pairs

theorem mono {permitted : Source.Ref → Prop} (weaker : ∀ own, allowed own → permitted own)
    (course : Course setting allowed state later) : Course setting permitted state later :=
  { course with steps := course.steps.mono weaker }

/-- Matches of members. -/
theorem of_links {permitted : Source.Ref → Compiled.Ref → Prop}
    (links : LinkSteps setting permitted state later) (formed : state.file.WellFormed)
    (fits : ∀ own other, permitted own other →
      Fits setting state.file own other ∧ IsMember own ∧ allowed own)
    (aliases : later.aliases = state.aliases) : Course setting allowed state later where
  steps := links.steps formed fun own other permission =>
    ⟨(fits own other permission).1, (fits own other permission).2.2⟩
  passes := .single (.members (fun own other permission =>
    ⟨(fits own other permission).1, (fits own other permission).2.1⟩) links aliases)
  pairs := links.gains.pairs

/-- A stand-in takes what it stands for. -/
theorem of_placed {file : Source.File} {own : Source.Ref} {other : Compiled.Ref}
    (sound : state.Sound setting done) (placed : Placed setting state.file file own other)
    (permitted : allowed own) (opened : state.isConsumed other = false) :
    let later := { state with file }.record setting own other
    Course setting allowed state later ∧ later.isConsumed other = true := by
  have accepted := placed.standsIn.accepts sound.current.formed opened
  refine ⟨⟨.single (.standIn placed.standsIn permitted opened), .single (.standIn placed opened),
    State.record_pairs _ _ _ _⟩, ?_⟩
  exact (State.isConsumed_record accepted other).mpr (.inl rfl)

end Course

/-- A pass that makes its course item by item and brings every item to an end that lasts. -/
theorem foldl_courses {γ : Type} {step : State → γ → State} {ends : γ → State → Prop}
    (sound : state.Sound setting done) (items : List γ)
    (advance : ∀ item ∈ items, ∀ current, current.Sound setting done → state.Grows current →
      Course setting allowed current (step current item) ∧ ends item (step current item))
    (lasting : ∀ item current later, State.Grows current later → ends item current →
      ends item later) :
    Course setting allowed state (items.foldl step state) ∧
      ∀ item ∈ items, ends item (items.foldl step state) := by
  refine @foldl_stages _ _ state step (fun _ => Course setting allowed) (Course setting allowed)
    (fun _ _ => True) ends .refl .trans items (fun _ _ _ _ => id) ?advance
    (List.pairwise_of_forall fun _ _ _ _ _ _ _ => trivial) ?lasting fun _ _ => trivial
  case advance =>
    intro item member current reached _
    exact advance item member current (reached.steps.sound sound) (reached.steps.grows sound)
  case lasting =>
    intro item _ current later reached moves
    exact lasting item current later (moves.steps.grows (reached.steps.sound sound))

/-! ### Fields -/

/-- Every field of a compiled type is taken. -/
def FieldsTaken (pool : Compiled.Pool) (compiledType : Compiled.Handle .type) (state : State) : Prop :=
  ∀ other ∈ (pool.typeAt compiledType).fields, state.isConsumed other.ref = true

namespace State

variable {type : Source.Handle .type} {compiledType : Compiled.Handle .type}

/-- The fields of two matched types are matched by name. -/
theorem matchFieldsByName_course (sound : state.Sound setting done)
    (linked : state.file.linkedType? type = some compiledType)
    (unlinked : ∀ own ∈ (state.file.typeAt type).fields, state.file.isLinked own.ref = false) :
    Course setting (fun element => element.kind = .field) state
      ((state.file.typeAt type).fields.foldl (matchField setting compiledType) state) := by
  refine Course.of_links (matchFieldsByName_links sound.current.formed unlinked)
    sound.current.formed ?_ (matchFieldsByName_adds fun _ _ => trivial).aliases
  rintro _ _ ⟨field, listed, other, compiledListed, rfl, rfl, named⟩
  exact ⟨.field linked listed compiledListed named, .inr (.inl rfl), rfl⟩

/-- The fields of two matched types are matched by name, and the others get stand-ins. -/
theorem matchFields_course (sound : state.Sound setting done)
    (linked : state.file.linkedType? type = some compiledType)
    (unlinked : ∀ own ∈ (state.file.typeAt type).fields, state.file.isLinked own.ref = false) :
    let final := state.matchFields setting type compiledType
    Course setting (fun element => element.kind = .field) state final ∧
      FieldsTaken setting.pool compiledType final := by
  have byName := matchFieldsByName_course sound linked unlinked
  have namedSound := byName.steps.sound sound
  have namedLinked := (byName.steps.grows sound).extended.linkedType linked
  obtain ⟨standIns, taken⟩ := @foldl_courses _ _ (fun element => element.kind = .field) _ _
    (standInForField setting type) (fun field state => state.isConsumed field.ref = true)
    namedSound (setting.pool.typeAt compiledType).fields
    (fun field compiledListed current currentSound grown => by
      unfold standInForField
      split
      · next isTaken => exact ⟨.refl current, isTaken⟩
      · next opened =>
        have placed := Placed.field (grown.extended.linkedType namedLinked) compiledListed
        exact Course.of_placed currentSound placed rfl (Bool.eq_false_iff.mpr opened))
    fun field current later grown => grown.consumed field.ref
  exact ⟨byName.trans standIns, taken⟩

/-! ### What no single body settles -/

/-- A pass over the methods whose bodies were matched. -/
theorem forPairs_course {step : State → MethodPair → State} {ends : MethodPair → State → Prop}
    (sound : state.Sound setting done)
    (advance : ∀ pair ∈ state.pairs, ∀ current, current.Sound setting done → state.Grows current →
      current.file.linkedMethod? pair.1 = some pair.2 →
      Course setting IsDetail current (step current pair) ∧ ends pair (step current pair))
    (lasting : ∀ pair current later, State.Grows current later → ends pair current →
      ends pair later) :
    Course setting IsDetail state (state.forPairs step) ∧
      ∀ pair ∈ state.pairs, ends pair (state.forPairs step) := by
  apply foldl_courses sound state.pairs _ lasting
  intro pair member current currentSound grown
  exact advance pair member current currentSound grown
    (grown.extended.linkedMethod (sound.pairs pair member))

/-- Matches inside the methods whose bodies were matched. -/
theorem forPairs_links {step : State → MethodPair → State} (sound : state.Sound setting done)
    (links : ∀ pair current, current.Sound setting done →
      LinkSteps setting (StatementFits setting current.file pair.1 pair.2) current
        (step current pair))
    (pass : ∀ pair current, current.file.linkedMethod? pair.1 = some pair.2 →
      Pass setting current (step current pair)) :
    Course setting IsDetail state (state.forPairs step) := by
  refine (@forPairs_course setting done state step (fun _ _ => True) sound ?advance
    fun _ _ _ _ _ => trivial).1
  intro pair _ current currentSound _ linked
  have made := links pair current currentSound
  exact ⟨⟨detail_steps currentSound.current.formed linked made, .single (pass pair current linked),
    made.gains.pairs⟩, trivial⟩

/-- Every call and every allocation of a compiled method whose line is known is taken. -/
def SitesTaken (pool : Compiled.Pool) (compiled : Compiled.Handle .method) (state : State) : Prop :=
  ∀ other, Site pool compiled other → state.isConsumed other = true

section Sites

variable {source : Source.Handle .method} {compiled : Compiled.Handle .method}

/-- A stand-in is only placed on a known line, and only for what is open. -/
theorem course_of_hint {hint : Option Nat} {other : Compiled.Ref} {placed : Nat → State}
    (shape : final = match hint with
      | some line => if state.isConsumed other then state else placed line
      | none => state)
    (advance : ∀ line, hint = some line → state.isConsumed other = false →
      Course setting IsDetail state (placed line) ∧ (placed line).isConsumed other = true) :
    Course setting IsDetail state final ∧
      ∀ line, hint = some line → final.isConsumed other = true := by
  cases hint with
  | none =>
      rw [shape]
      exact ⟨.refl state, nofun⟩
  | some line =>
      cases taken : state.isConsumed other with
      | true =>
          simp only [taken, if_true] at shape
          rw [shape]
          exact ⟨.refl state, fun _ _ => taken⟩
      | false =>
          simp only [taken, Bool.false_eq_true, if_false] at shape
          obtain ⟨course, isTaken⟩ := advance line rfl taken
          rw [shape]
          exact ⟨course, fun _ _ => isTaken⟩

theorem standInForCall_course {call : Compiled.Handle .invocation}
    (sound : state.Sound setting done) (linked : state.file.linkedMethod? source = some compiled)
    (shallow : state.file.nestingDepth source ≤ maxLambdaNesting)
    (listed : call ∈ (setting.pool.methodAt compiled).invocations) :
    let final := state.standInForCall setting source call
    Course setting IsDetail state final ∧
      ∀ line, (setting.pool.invocationAt call).line = some line →
        final.isConsumed call.ref = true := by
  apply course_of_hint rfl
  intro line hinted opened
  exact Course.of_placed sound (.call linked shallow listed hinted) ⟨nofun, nofun⟩ opened

theorem standInForAllocation_course {allocation : Compiled.Handle .allocation}
    (sound : state.Sound setting done) (linked : state.file.linkedMethod? source = some compiled)
    (shallow : state.file.nestingDepth source ≤ maxLambdaNesting)
    (listed : allocation ∈ (setting.pool.methodAt compiled).allocations) :
    let final := state.standInForAllocation setting source allocation
    Course setting IsDetail state final ∧
      ∀ line, (setting.pool.allocationAt allocation).line = some line →
        final.isConsumed allocation.ref = true := by
  apply course_of_hint rfl
  intro line hinted opened
  exact Course.of_placed sound (.allocation linked shallow listed hinted) ⟨nofun, nofun⟩ opened

/-- The open sites of a method get stand-ins. -/
theorem standInForSites_course (sound : state.Sound setting done)
    (linked : state.file.linkedMethod? source = some compiled)
    (shallow : state.file.nestingDepth source ≤ maxLambdaNesting) :
    let final := state.standInForSites setting (source, compiled)
    Course setting IsDetail state final ∧ SitesTaken setting.pool compiled final := by
  have still {current : State} (grown : state.Grows current) :
      current.file.linkedMethod? source = some compiled ∧
        current.file.nestingDepth source ≤ maxLambdaNesting :=
    ⟨grown.extended.linkedMethod linked, grown.extended.nestingDepth source ▸ shallow⟩
  obtain ⟨calls, callsTaken⟩ := @foldl_courses setting done IsDetail state _
    (standInForCall setting source)
    (fun call state => ∀ line, (setting.pool.invocationAt call).line = some line →
      state.isConsumed call.ref = true)
    sound (setting.pool.methodAt compiled).invocations
    (fun call listed current currentSound grown =>
      standInForCall_course currentSound (still grown).1 (still grown).2 listed)
    fun call current later grown ends line hinted => grown.consumed call.ref (ends line hinted)
  have calledSound := calls.steps.sound sound
  have called := calls.steps.grows sound
  obtain ⟨allocations, allocationsTaken⟩ := @foldl_courses setting done IsDetail _ _
    (standInForAllocation setting source)
    (fun allocation state => ∀ line, (setting.pool.allocationAt allocation).line = some line →
      state.isConsumed allocation.ref = true)
    calledSound (setting.pool.methodAt compiled).allocations
    (fun allocation listed current currentSound grown => standInForAllocation_course currentSound
      (still (called.trans grown)).1 (still (called.trans grown)).2 listed)
    fun allocation current later grown ends line hinted =>
      grown.consumed allocation.ref (ends line hinted)
  refine ⟨calls.trans allocations, fun other isSite => ?_⟩
  cases isSite with
  | @call call line listed hinted =>
      exact (allocations.steps.grows calledSound).consumed _ (callsTaken call listed line hinted)
  | @allocation allocation line listed hinted =>
      exact allocationsTaken allocation listed line hinted

end Sites

/-- What is read of outer instances is matched, for every method whose body was matched. -/
theorem outerThis_course (sound : state.Sound setting done) :
    Course setting IsDetail state (state.forPairs (matchOuterThis setting)) :=
  forPairs_links sound
    (fun pair _ currentSound => matchOuterThis_links currentSound.current.formed pair)
    fun _ _ => .outerThis

/-- Calls for arrays are dealt out, for every method whose body was matched. -/
theorem arrays_course (sound : state.Sound setting done) :
    Course setting IsDetail state (state.forPairs (matchReflectiveArrays setting)) :=
  forPairs_links sound
    (fun pair _ currentSound =>
      matchReflectiveArrays_links currentSound.current.formed currentSound.pool pair)
    fun _ _ => .arrays

/-- The passes after the bodies.  No site of the methods whose bodies were matched stays open. -/
theorem settleBodies_course (sound : state.Sound setting done)
    (shallow : ∀ pair ∈ state.pairs, state.file.nestingDepth pair.1 ≤ maxLambdaNesting) :
    let final := ((state.forPairs (matchOuterThis setting)).forPairs
      (matchReflectiveArrays setting)).forPairs (standInForSites setting)
    Course setting IsDetail state final ∧
      ∀ pair ∈ state.pairs, SitesTaken setting.pool pair.2 final := by
  have outer := outerThis_course sound
  have arrays := arrays_course (outer.steps.sound sound)
  have matched := outer.trans arrays
  have grown := matched.steps.grows sound
  obtain ⟨sites, taken⟩ := @forPairs_course setting done _ (standInForSites setting)
    (fun pair => SitesTaken setting.pool pair.2) (matched.steps.sound sound)
    (fun pair member current currentSound more linked => by
      apply standInForSites_course currentSound linked
      rw [(grown.trans more).extended.nestingDepth]
      exact shallow pair (matched.pairs ▸ member))
    fun pair current later more taken other isSite => more.consumed other (taken other isSite)
  exact ⟨matched.trans sites, fun pair member => taken pair (matched.pairs ▸ member)⟩

/-! ### Uses of names -/

theorem resolveUsageIn_eq (pool : Compiled.Pool) (compiledType : Compiled.TypeDecl)
    (file : Source.File) (usage : Source.Handle .typeUsage) :
    resolveUsageIn pool compiledType file usage = file ∨
      ∃ name, resolveUsageIn pool compiledType file usage = file.resolveUsage usage name := by
  unfold resolveUsageIn
  split
  · next name _ => exact .inr ⟨name, rfl⟩
  · exact .inl rfl

/-- Resolving names leaves the links alone. -/
theorem foldl_resolveUsageIn (pool : Compiled.Pool) (compiledType : Compiled.TypeDecl)
    (usages : List (Source.Handle .typeUsage)) (file : Source.File) :
    file.Extends (usages.foldl (resolveUsageIn pool compiledType) file) ∧
      (usages.foldl (resolveUsageIn pool compiledType) file).links = file.links := by
  induction usages generalizing file with
  | nil => exact ⟨.refl file, rfl⟩
  | cons usage rest inductionHypothesis =>
      have first : file.Extends (resolveUsageIn pool compiledType file usage) ∧
          (resolveUsageIn pool compiledType file usage).links = file.links := by
        unfold resolveUsageIn
        split
        · exact ⟨Source.File.extends_resolveUsage file usage _, rfl⟩
        · exact ⟨.refl file, rfl⟩
      rw [List.foldl_cons]
      generalize resolveUsageIn pool compiledType file usage = next at first ⊢
      obtain ⟨extended, links⟩ := inductionHypothesis next
      exact ⟨first.1.trans extended, links.trans first.2⟩

theorem resolveUsages_course (compiledType : Compiled.TypeDecl)
    (usages : List (Source.Handle .typeUsage)) (state : State) :
    let final : State :=
      { state with file := usages.foldl (resolveUsageIn setting.pool compiledType) state.file }
    Course setting allowed state final := by
  induction usages generalizing state with
  | nil => exact .refl state
  | cons usage rest inductionHypothesis =>
      rw [List.foldl_cons]
      rcases resolveUsageIn_eq setting.pool compiledType state.file usage with
        same | ⟨name, resolved⟩
      · rw [same]
        exact inductionHypothesis state
      · rw [resolved]
        let first : State := { state with file := state.file.resolveUsage usage name }
        have course : Course setting allowed state first :=
          ⟨.single (.resolve usage name), .single (.resolve usage name), rfl⟩
        exact course.trans (inductionHypothesis first)

end State

end Correlate.Matching
