/-
Module: Correlate.Proofs.Matching.TwinTypes
Purpose: Two runs do the same to the types of a file.
Main exports: Twins.matchMembers, Twins.matchType, Twins.matchTypes
-/
import Correlate.Proofs.Matching.Courses
import Correlate.Proofs.Matching.TwinBodies

namespace Correlate.Matching.Twins

variable {setting : Setting} {i : Nat} {territory : Territory setting.pool}
  {first state twin : State} {type : Source.Handle .type} {compiledType : Compiled.Handle .type}

/-! ### Fields -/

theorem standInForField (twins : Twins territory first state twin)
    {field : Compiled.Handle .field} (has : territory.has field) :
    Twins territory first (state.standInForField setting type field)
      (twin.standInForField (setting.numbered i) type field) := by
  unfold State.standInForField
  rw [twins.alike _ has, twins.file]
  split
  · exact twins
  · let record := setting.pool.fieldAt field
    have extended : twin.file.Extends
        (twin.file.addPlaceholderField type record.name record.type).1 :=
      Source.File.extends_pushField twin.file rfl
    exact (twins.withFile extended rfl).record _ has

theorem matchFields (twins : Twins territory first state twin)
    (inside : territory.has compiledType) :
    Twins territory first (state.matchFields setting type compiledType)
      (twin.matchFields (setting.numbered i) type compiledType) := by
  unfold State.matchFields
  rw [twins.file]
  refine foldl_tied _ (foldl_tied _ twins ?byName) ?standIns
  case byName =>
    exact fun field _ _ _ current =>
      (lockstep setting i territory first).matchField current trivial (territory.fields inside)
  case standIns =>
    exact fun field listed _ _ current => current.standInForField (territory.fields inside field listed)

/-! ### Bodies -/

theorem matchBodies (twins : Twins territory first state twin) :
    Twins territory first (state.matchBodies setting type)
      (twin.matchBodies (setting.numbered i) type) := by
  have same : (state.file.typeAt type).methods = (twin.file.typeAt type).methods := by
    rw [twins.file]
  unfold State.matchBodies
  rw [same]
  apply foldl_tied _ twins.forgetPairs
  intro method _ current currentTwin currentTwins
  unfold State.matchMethodBody
  rw [currentTwins.file]
  cases linked : currentTwin.file.linkedMethod? method with
  | none => exact currentTwins
  | some compiled => exact matchBody _ currentTwins (currentTwins.linkedMethod linked)

/-- A step for every pair of methods whose bodies were matched. -/
theorem forPairs {step twinStep : State → MethodPair → State}
    (twins : Twins territory first state twin)
    (advance : ∀ {pair : MethodPair} {state twin : State}, Twins territory first state twin →
      territory.has pair.2 → Twins territory first (step state pair) (twinStep twin pair)) :
    Twins territory first (state.forPairs step) (twin.forPairs twinStep) := by
  unfold State.forPairs
  rw [twins.pairs]
  exact foldl_tied _ twins fun pair member _ _ current => advance current (twins.entered pair member)

theorem standInForCall (twins : Twins territory first state twin) (source : Source.Handle .method)
    {call : Compiled.Handle .invocation} (has : territory.has call) :
    Twins territory first (state.standInForCall setting source call)
      (twin.standInForCall (setting.numbered i) source call) := by
  unfold State.standInForCall
  dsimp only
  rw [twins.alike _ has, twins.file]
  cases (setting.pool.invocationAt call).line with
  | none => exact twins
  | some line =>
      let record := setting.pool.invocationAt call
      have extended : twin.file.Extends
          (twin.file.addPlaceholderInvocation source record.name record.arity line).1 :=
        Source.File.extends_pushInvocation twin.file rfl
      dsimp only
      split
      · exact twins
      · exact (twins.withFile extended rfl).record _ has

theorem standInForAllocation (twins : Twins territory first state twin)
    (source : Source.Handle .method) {allocation : Compiled.Handle .allocation}
    (has : territory.has allocation) :
    Twins territory first (state.standInForAllocation setting source allocation)
      (twin.standInForAllocation (setting.numbered i) source allocation) := by
  unfold State.standInForAllocation
  dsimp only
  rw [twins.alike _ has, twins.file]
  cases (setting.pool.allocationAt allocation).line with
  | none => exact twins
  | some line =>
      let record := setting.pool.allocationAt allocation
      have extended : twin.file.Extends
          (twin.file.addPlaceholderAllocation source record.type line).1 :=
        Source.File.extends_pushAllocation twin.file rfl
      dsimp only
      split
      · exact twins
      · exact (twins.withFile extended rfl).record _ has

theorem standInForSites (twins : Twins territory first state twin) {pair : MethodPair}
    (inside : territory.has pair.2) :
    Twins territory first (state.standInForSites setting pair)
      (twin.standInForSites (setting.numbered i) pair) := by
  unfold State.standInForSites
  refine foldl_tied _ (foldl_tied _ twins ?calls) ?allocations
  case calls =>
    exact fun call listed _ _ current =>
      current.standInForCall _ (territory.invocations inside call listed)
  case allocations =>
    exact fun allocation listed _ _ current =>
      current.standInForAllocation _ (territory.allocations inside allocation listed)

/-! ### Types -/

theorem resolveUsages (twins : Twins territory first state twin)
    (compiledType : Compiled.Handle .type) :
    Twins territory first
      { state with file := Matching.resolveUsages setting.pool type compiledType state.file }
      { twin with file := Matching.resolveUsages setting.pool type compiledType twin.file } := by
  obtain ⟨extended, links⟩ := State.foldl_resolveUsageIn setting.pool
    (setting.pool.typeAt compiledType) (twin.file.typeAt type).typeUsages twin.file
  rw [twins.file]
  exact twins.withFile extended links

theorem matchMembers (twins : Twins territory first state twin)
    (inside : territory.has compiledType) :
    Twins territory first (state.matchMembers setting type compiledType)
      (twin.matchMembers (setting.numbered i) type compiledType) := by
  have steps := lockstep setting i territory first
  have fields : Twins territory first (state.matchFields setting type compiledType)
      (twin.matchFields (setting.numbered i) type compiledType) := twins.matchFields inside
  have methods : Twins territory first
      ((state.matchFields setting type compiledType).matchMethods setting type compiledType)
      ((twin.matchFields (setting.numbered i) type compiledType).matchMethods
        (setting.numbered i) type compiledType) :=
    steps.matchMethods fields (fun _ _ => trivial) (territory.methods inside)
  unfold State.matchMembers
  apply resolveUsages
  refine forPairs (forPairs (forPairs methods.matchBodies ?outerThis) ?arrays) ?standIns
  case outerThis =>
    exact fun current has =>
      steps.matchOuterThis trivial (territory.fieldAccesses has) current fun _ _ => trivial
  case arrays => exact fun current has => current.matchReflectiveArrays has
  case standIns => exact fun current has => current.standInForSites has

theorem matchType (twins : Twins territory first state twin)
    (named : ∀ compiledType, setting.pool.typeNamed? (twin.file.typeAt type).binaryName =
      some compiledType → territory.has compiledType) :
    Twins territory first (state.matchType setting type)
      (twin.matchType (setting.numbered i) type) := by
  unfold State.matchType
  rw [twins.file]
  cases found : setting.pool.typeNamed? (twin.file.typeAt type).binaryName with
  | none => exact twins
  | some compiledType =>
      have has := named compiledType found
      dsimp only
      rw [(lockstep setting i territory first).accepts twins trivial has]
      split
      · exact (twins.record type.ref has).matchMembers has
      · exact twins.record type.ref has

/-- All types of a file are matched alike, where the territory has the compiled types of their
names. -/
theorem matchTypes (twins : Twins territory first state twin)
    (named : ∀ type ∈ twin.file.typeHandles, ∀ compiledType,
      setting.pool.typeNamed? (first.file.typeAt type).binaryName = some compiledType →
        territory.has compiledType) :
    Twins territory first (state.matchTypes setting) (twin.matchTypes (setting.numbered i)) := by
  unfold State.matchTypes
  rw [twins.file]
  apply foldl_tied _ twins
  intro type listed current currentTwin currentTwins
  apply currentTwins.matchType
  rw [currentTwins.extended.binaryName]
  exact named type listed

end Correlate.Matching.Twins
