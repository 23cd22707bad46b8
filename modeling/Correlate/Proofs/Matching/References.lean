/-
Module: Correlate.Proofs.Matching.References
Purpose: What matching casts and method references comes to.
Main exports: State.matchCasts_links, State.matchReferences_links
-/
import Correlate.Matching.Body
import Correlate.Proofs.Matching.Fit
import Correlate.Proofs.Matching.Groups

namespace Correlate.Matching

namespace State

variable {setting : Setting} {state : State} {source : Source.Handle .method}
  {compiled : Compiled.Handle .method}

theorem matchCasts_links (formed : state.file.WellFormed) (poolFormed : setting.pool.WellFormed)
    (unlinked : ∀ own ∈ (state.file.methodAt source).casts, state.file.isLinked own.ref = false)
    (opened : ∀ other ∈ (setting.pool.methodAt compiled).casts,
      state.isConsumed other.ref = false) :
    let final := state.matchCasts setting source compiled
    LinkSteps setting (FitsOfKind setting state.file source compiled .cast .cast) state final ∧
      GroupSettled setting final (state.file.methodAt source).casts
        (setting.pool.methodAt compiled).casts := by
  have sources_nodup := (formed.list_nodup .cast source).of_map _
  have compiled_nodup := (poolFormed.list_nodup .cast compiled).of_map _
  dsimp only
  unfold matchCasts
  rw [openOf_eq opened]
  dsimp only
  split
  · next none_listed =>
    rw [none_listed]
    exact ⟨.refl, .nil state⟩
  · split
    · next sized =>
      obtain ⟨steps, paired⟩ :=
        pairZip_links "casts" sized sources_nodup compiled_nodup unlinked opened
      refine ⟨steps.mono fun own other permission => ?_, paired⟩
      obtain ⟨a, isSource, c, isCompiled, rfl, rfl⟩ := permission.between
      exact ⟨rfl, rfl, .cast isSource isCompiled⟩
    · next uneven => exact ⟨.single (.note _ nofun), .of_notice _ _ uneven⟩

/-- The method references of a method to one name. -/
def referencesTo (file : Source.File) (source : Source.Handle .method) (name : String) :
    List (Source.Handle .methodRef) :=
  (file.methodAt source).methodRefs.filter fun reference => (file.methodRefAt reference).name = name

/-- The compiled method references of a method to one name. -/
def compiledReferencesTo (pool : Compiled.Pool) (compiled : Compiled.Handle .method)
    (name : String) : List (Compiled.Handle .methodRef) :=
  (pool.methodAt compiled).methodRefs.filter fun reference =>
    (pool.methodRefAt reference).name = name

theorem matchReferences_links (formed : state.file.WellFormed)
    (poolFormed : setting.pool.WellFormed)
    (unlinked : ∀ own ∈ (state.file.methodAt source).methodRefs,
      state.file.isLinked own.ref = false)
    (opened : ∀ other ∈ (setting.pool.methodAt compiled).methodRefs,
      state.isConsumed other.ref = false) :
    let final := state.matchReferences setting source compiled
    LinkSteps setting (FitsOfKind setting state.file source compiled .methodRef .methodRef)
        state final ∧
      ∀ name, GroupSettled setting final (referencesTo state.file source name)
        (compiledReferencesTo setting.pool compiled name) := by
  have sources_nodup := (formed.list_nodup .methodRef source).of_map _
  have compiled_nodup := (poolFormed.list_nodup .methodRef compiled).of_map _
  have candidates (name : String) : (state.openReferences setting compiled).members name =
      compiledReferencesTo setting.pool compiled name := by
    rw [openReferences, openOf_eq opened, members_groupBy]
    rfl
  have pass := @foldl_groups setting .methodRef .methodRef
    (state.file.methodAt source).methodRefs (setting.pool.methodAt compiled).methodRefs _ _ state
    (fun reference => (state.file.methodRefAt reference).name)
    (fun reference => (setting.pool.methodRefAt reference).name)
    (matchReferenceGroup setting (state.openReferences setting compiled))
    (fun name => Between (referencesTo state.file source name)
      (compiledReferencesTo setting.pool compiled name))
    (fun name current => GroupSettled setting current (referencesTo state.file source name)
      (compiledReferencesTo setting.pool compiled name))
    _ (List.Sublist.refl _) (fun _ _ _ => id)
  obtain ⟨steps, ends⟩ := by
    refine pass ?advance (fun _ _ _ steps => .lasting steps) unlinked opened
    case advance =>
      intro name current _ _ groupUnlinked groupOpened
      unfold matchReferenceGroup
      dsimp only
      rw [candidates name]
      split
      · next sized =>
        obtain ⟨groupSteps, settled⟩ := pairZip_links s!"references to {name}" sized.symm
          (sources_nodup.filter _) (compiled_nodup.filter _) groupUnlinked groupOpened
        exact ⟨groupSteps.mono fun _ _ => Zipped.between, settled⟩
      · next uneven =>
        exact ⟨.single (.note _ nofun), .of_notice _ _ fun sized => uneven sized.symm⟩
  refine ⟨steps.mono fun own other permission => ?_, fun name => ?_⟩
  · obtain ⟨name, _, a, isSource, c, isCompiled, rfl, rfl⟩ := permission
    obtain ⟨listed, named⟩ := List.mem_filter.mp isSource
    obtain ⟨compiledListed, compiledNamed⟩ := List.mem_filter.mp isCompiled
    exact ⟨rfl, rfl, .reference listed compiledListed
      ((of_decide_eq_true compiledNamed).trans (of_decide_eq_true named).symm)⟩
  · apply GroupSettled.of_present
    intro own member
    obtain ⟨isSource, named⟩ := List.mem_filter.mp member
    obtain rfl := of_decide_eq_true named
    exact ends _ (mem_groupBy_of_mem isSource)

end State

end Correlate.Matching
