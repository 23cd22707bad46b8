/-
Module: Correlate.Proofs.Matching.TwinBodies
Purpose: Two runs do the same to the bodies of two methods.
Main exports: Twins.matchStatements, Twins.matchLambdas, Twins.matchBody
-/
import Correlate.Proofs.Matching.Bodies
import Correlate.Proofs.Matching.Twins

namespace Correlate.Matching

/-! ### What a territory has with a method -/

namespace Territory

variable {pool : Compiled.Pool} {compiled : Compiled.Handle .method}

theorem slots (territory : Territory pool) (inside : territory.has compiled) :
    ∀ slot ∈ (pool.methodAt compiled).receiver.toList ++ (pool.methodAt compiled).params,
      territory.has slot.ref :=
  fun _ listed => territory.parts inside .slot (List.mem_map_of_mem listed)

theorem invocations (territory : Territory pool) (inside : territory.has compiled) :
    ∀ call ∈ (pool.methodAt compiled).invocations, territory.has call.ref :=
  fun _ listed => territory.parts inside .invocation (List.mem_map_of_mem listed)

theorem allocations (territory : Territory pool) (inside : territory.has compiled) :
    ∀ allocation ∈ (pool.methodAt compiled).allocations, territory.has allocation.ref :=
  fun _ listed => territory.parts inside .allocation (List.mem_map_of_mem listed)

theorem fieldAccesses (territory : Territory pool) (inside : territory.has compiled) :
    ∀ access ∈ (pool.methodAt compiled).fieldAccesses, territory.has access.ref :=
  fun _ listed => territory.parts inside .fieldAccess (List.mem_map_of_mem listed)

theorem methodRefs (territory : Territory pool) (inside : territory.has compiled) :
    ∀ reference ∈ (pool.methodAt compiled).methodRefs, territory.has reference.ref :=
  fun _ listed => territory.parts inside .methodRef (List.mem_map_of_mem listed)

theorem casts (territory : Territory pool) (inside : territory.has compiled) :
    ∀ conversion ∈ (pool.methodAt compiled).casts, territory.has conversion.ref :=
  fun _ listed => territory.parts inside .cast (List.mem_map_of_mem listed)

end Territory

namespace Twins

variable {setting : Setting} {i : Nat} {territory : Territory setting.pool}
  {first state twin : State} {source : Source.Handle .method} {compiled : Compiled.Handle .method}

/-! ### Allocations -/

theorem matchAllocationOnLine (twins : Twins territory first state twin)
    {sources : List (Source.Handle .allocation)} {candidates : List (Compiled.Handle .allocation)}
    (inside : ∀ candidate ∈ candidates, territory.has candidate.ref)
    (allocation : Source.Handle .allocation) :
    Twins territory first (state.matchAllocationOnLine setting sources candidates allocation)
      (twin.matchAllocationOnLine (setting.numbered i) sources candidates allocation) := by
  unfold State.matchAllocationOnLine
  rw [twins.file]
  cases twin.file.startLine? allocation.ref with
  | none => exact twins
  | some line =>
      have same : (candidates.find? fun candidate =>
            !state.isConsumed candidate.ref &&
              (setting.pool.allocationAt candidate).line = some line) =
          candidates.find? fun candidate =>
            !twin.isConsumed candidate.ref &&
              (setting.pool.allocationAt candidate).line = some line := by
        apply List.find?_congr
        intro candidate member
        rw [twins.alike _ (inside candidate member)]
      dsimp only
      rw [same]
      generalize found : candidates.find? _ = counterpart
      cases counterpart with
      | none => exact twins
      | some counterpart =>
          dsimp only
          split
          · exact twins.record _ (inside counterpart (List.mem_of_find?_eq_some found))
          · exact twins

theorem matchAllocationGroup (twins : Twins territory first state twin)
    {candidates : Grouping String (Compiled.Handle .allocation)}
    (inside : ∀ key, ∀ candidate ∈ candidates.members key, territory.has candidate.ref)
    (group : String × List (Source.Handle .allocation)) :
    Twins territory first (state.matchAllocationGroup setting candidates group)
      (twin.matchAllocationGroup (setting.numbered i) candidates group) := by
  obtain ⟨key, sources⟩ := group
  have byLine {state twin : State} (twins : Twins territory first state twin) :
      Twins territory first
        (sources.foldl
          (State.matchAllocationOnLine setting sources (candidates.members key)) state)
        (sources.foldl
          (State.matchAllocationOnLine (setting.numbered i) sources (candidates.members key)) twin) :=
    foldl_tied sources twins fun allocation _ _ _ current =>
      current.matchAllocationOnLine (inside key) allocation
  unfold State.matchAllocationGroup
  dsimp only
  rw [twins.file]
  split
  · exact (lockstep setting i territory first).pairZip twins _ (fun _ _ => trivial) (inside key)
  · split
    · split
      · exact byLine twins
      · exact byLine (twins.notice _ _)
    · split
      · exact twins
      · exact twins.notice _ _

theorem matchAllocations (twins : Twins territory first state twin)
    (inside : territory.has compiled) :
    Twins territory first (state.matchAllocations setting source compiled)
      (twin.matchAllocations (setting.numbered i) source compiled) := by
  have sources : state.sourceAllocations source = twin.sourceAllocations source := by
    unfold State.sourceAllocations
    rw [twins.file]
  have candidates : state.openAllocations setting compiled =
      twin.openAllocations (setting.numbered i) compiled := by
    unfold State.openAllocations
    rw [(lockstep setting i territory first).openOf twins (territory.allocations inside)]
  unfold State.matchAllocations
  rw [sources, candidates]
  exact foldl_tied _ twins fun group _ _ _ current =>
    current.matchAllocationGroup (members_groupBy_open (territory.allocations inside)) group

theorem matchReflectiveArrays (twins : Twins territory first state twin) {pair : MethodPair}
    (inside : territory.has pair.2) :
    Twins territory first (state.matchReflectiveArrays setting pair)
      (twin.matchReflectiveArrays (setting.numbered i) pair) := by
  have sources : state.openArrays pair.1 = twin.openArrays pair.1 := by
    unfold State.openArrays
    rw [twins.file]
  have candidates : state.openArrayCalls setting pair.2 =
      twin.openArrayCalls (setting.numbered i) pair.2 := by
    unfold State.openArrayCalls
    rw [(lockstep setting i territory first).openOf twins (territory.invocations inside)]
  unfold State.matchReflectiveArrays
  rw [sources, candidates]
  dsimp only
  split
  · apply (lockstep setting i territory first).pairZip twins _ fun _ _ => trivial
    exact fun call member => territory.invocations inside call
      (List.mem_of_mem_filter (List.mem_of_mem_filter member))
  · exact twins

/-! ### All statements -/

theorem runPass (twins : Twins territory first state twin) (inside : territory.has compiled)
    (pass : BodyPass) :
    Twins territory first (pass.run setting source compiled state)
      (pass.run (setting.numbered i) source compiled twin) := by
  have steps := lockstep setting i territory first
  have anything {kind : Source.Kind} {elements : List (Source.Handle kind)} :
      ∀ element ∈ elements, True := fun _ _ => trivial
  cases pass with
  | vars => exact steps.matchVariables trivial twins anything (territory.slots inside)
  | calls =>
      exact steps.aliasCallBases trivial
        (steps.matchCalls trivial (territory.invocations inside) twins anything)
  | allocations => exact twins.matchAllocations inside
  | accesses =>
      exact steps.matchFieldAccesses trivial (territory.fieldAccesses inside) twins anything
  | casts => exact steps.matchCasts trivial twins anything (territory.casts inside)
  | references => exact steps.matchReferences trivial twins anything (territory.methodRefs inside)

theorem matchStatements (twins : Twins territory first state twin)
    (inside : territory.has compiled) :
    Twins territory first (state.matchStatements setting source compiled)
      (twin.matchStatements (setting.numbered i) source compiled) := by
  have entered : Twins territory first (state.addPair (source, compiled))
      (twin.addPair (source, compiled)) := twins.addPair inside
  rw [State.matchStatements_eq, State.matchStatements_eq]
  exact foldl_tied BodyPass.all entered fun pass _ _ _ current => current.runPass inside pass

/-! ### Lambdas -/

/-- Two ways to match bodies that do the same in two runs. -/
def AlikeBodies (territory : Territory setting.pool) (first : State)
    (bodies twinBodies : Source.Handle .method → Compiled.Handle .method → State → State) : Prop :=
  ∀ {source compiled state twin}, Twins territory first state twin → territory.has compiled.ref →
    Twins territory first (bodies source compiled state) (twinBodies source compiled twin)

variable {bodies twinBodies : Source.Handle .method → Compiled.Handle .method → State → State}

theorem matchLambda (twins : Twins territory first state twin)
    (alike : AlikeBodies territory first bodies twinBodies) (lambda : Source.Handle .method)
    {place : Compiled.Handle .lambda}
    (inside : ∀ {implementation : Compiled.Handle .method},
      (setting.pool.lambdaAt place).implementation = some implementation →
        territory.has implementation) :
    Twins territory first (state.matchLambda setting bodies (lambda, place))
      (twin.matchLambda (setting.numbered i) twinBodies (lambda, place)) := by
  have steps := lockstep setting i territory first
  unfold State.matchLambda
  rw [twins.file]
  dsimp only
  cases implemented : (setting.pool.lambdaAt place).implementation with
  | none => exact steps.noticeAt twins trivial _
  | some implementation =>
      have has := inside implemented
      dsimp only
      rw [steps.accepts twins trivial has]
      split
      · exact steps.noticeAt twins trivial _
      · split
        · exact alike (twins.record lambda.ref has) has
        · exact twins.record lambda.ref has

theorem matchLambdas (twins : Twins territory first state twin) (inside : territory.has compiled)
    (alike : AlikeBodies territory first bodies twinBodies) :
    Twins territory first (state.matchLambdas setting bodies source compiled)
      (twin.matchLambdas (setting.numbered i) twinBodies source compiled) := by
  unfold State.matchLambdas
  rw [twins.file]
  dsimp only
  split
  · apply foldl_tied _ twins
    rintro ⟨lambda, place⟩ member current currentTwin currentTwins
    apply currentTwins.matchLambda alike
    exact territory.implementations inside place (List.of_mem_zip member).2
  · generalize (twin.file.methodAt source).lambdas = lambdas
    cases lambdas with
    | nil => exact twins
    | cons lambda rest => exact (lockstep setting i territory first).noticeAt twins trivial _

/-- Bodies are matched alike, however deeply lambdas are nested in them. -/
theorem matchBody (budget : Nat) :
    AlikeBodies territory first (State.matchBody setting budget)
      (State.matchBody (setting.numbered i) budget) := by
  induction budget with
  | zero =>
      exact fun twins _ => (lockstep setting i territory first).noticeAt twins trivial _
  | succ budget inductionHypothesis =>
      intro source compiled state twin twins inside
      exact (twins.matchStatements inside).matchLambdas inside inductionHypothesis

end Twins

end Correlate.Matching
