/-
Module: Correlate.Proofs.Consumption
Purpose: Links, registry and report of a run tell the same matches, each once.
Main exports: Move, run_moves, OnlyAdds, Outcome.Consistent, run_consistent
-/
import Mathlib.Algebra.Order.BigOperators.Group.List
import Mathlib.Algebra.Order.Ring.Nat
import Correlate.Proofs.Grouping
import Correlate.Proofs.Matching.Runs
import Correlate.Proofs.Source.Elements
import Correlate.Report.Basic

namespace Correlate.Matching

/-! ### The steps of a run -/

/-- A step of a run. -/
inductive Move (plan : Plan) : Outcome → Outcome → Prop where
  /-- The next file is opened. -/
  | openFile {outcome : Outcome} {file : Source.File}
      (unlinked : ∀ element, file.isLinked element = false) :
      Move plan outcome { outcome with files := outcome.files ++ [file] }
  /-- A step of matching the last file. -/
  | step {done : List Source.File} {state later : State}
      (taken : Step (plan.setting done.length) anyElement state later) :
      Move plan ⟨done ++ [state.file], state.toLedger⟩ ⟨done ++ [later.file], later.toLedger⟩
  /-- The facts reveal aliases. -/
  | reveal {outcome : Outcome} :
      Move plan outcome { outcome with ledger := { outcome.ledger with
        aliases := outcome.ledger.aliases ++ revealedAliases plan outcome.files } }

variable {plan : Plan} {files : List Source.File} {outcome : Outcome}

/-- Matching one more file is a sequence of steps. -/
theorem Outcome.Sound.matchFile_moves {file : Source.File} (poolFormed : plan.pool.WellFormed)
    (sound : outcome.Sound plan files) (formed : file.WellFormed)
    (unlinked : ∀ element, file.isLinked element = false) :
    Relation.ReflTransGen (Move plan) outcome (Matching.matchFile plan outcome file) := by
  have startSound := sound.open_sound poolFormed formed unlinked
  have journey := (State.matchTypes_journey startSound unlinked).1
  have taken := Relation.ReflTransGen.lift
    (fun state : State => (⟨outcome.files ++ [state.file], state.toLedger⟩ : Outcome))
    (fun _ _ => Move.step) _ _ journey.steps
  exact .head (.openFile unlinked) taken

/-- A run is a sequence of steps. -/
theorem run_moves (built : plan.pool.IsBuilt) (reachable : ∀ file ∈ files, file.Reachable)
    (unlinked : ∀ file ∈ files, ∀ element, file.isLinked element = false) :
    Relation.ReflTransGen (Move plan) {} (run plan files) := by
  have matched : Relation.ReflTransGen (Move plan) {} (files.foldl (matchFile plan) {}) := by
    induction files using List.reverseRecOn with
    | nil => exact .refl
    | append_singleton before file inductionHypothesis =>
        have member : file ∈ before ++ [file] := List.mem_append_right _ (List.mem_singleton_self _)
        have earlierReachable : ∀ earlier ∈ before, earlier.Reachable :=
          fun earlier isEarlier => reachable earlier (List.mem_append_left _ isEarlier)
        have earlierUnlinked : ∀ earlier ∈ before, ∀ element, earlier.isLinked element = false :=
          fun earlier isEarlier => unlinked earlier (List.mem_append_left _ isEarlier)
        have sound := foldl_sound built earlierReachable earlierUnlinked
        rw [List.foldl_append]
        exact (inductionHypothesis earlierReachable earlierUnlinked).trans
          (sound.matchFile_moves built.wellFormed (reachable file member).wellFormed
            (unlinked file member))
  exact matched.tail .reveal

/-! ### What a step keeps -/

/-- Links and taken elements stay. -/
structure OnlyAdds (before after : Outcome) : Prop where
  links : ∀ handle link,
    linkAt before.files handle = some link → linkAt after.files handle = some link
  consumed : ∀ element, before.ledger.registry.isConsumed element = true →
    after.ledger.registry.isConsumed element = true

/-- A match keeps the links of the file and what is taken, wherever it is tried. -/
theorem State.record_keeps (setting : Setting) (state : State) (own : Source.Ref)
    (other : Compiled.Ref) :
    (∀ element link, state.file.link? element = some link →
      (state.record setting own other).file.link? element = some link) ∧
      ∀ element, state.isConsumed element = true →
        (state.record setting own other).isConsumed element = true := by
  refine ⟨(record_extends setting state own other).links, fun element taken => ?_⟩
  cases accepted : state.accepts own other with
  | true => exact (State.isConsumed_record accepted element).mpr (.inr taken)
  | false =>
      rw [State.record_of_rejected accepted]
      exact taken

/-- No step takes anything back. -/
theorem Step.keeps {setting : Setting} {allowed : Source.Ref → Prop} {state later : State}
    (step : Step setting allowed state later) :
    (∀ element link, state.file.link? element = some link →
      later.file.link? element = some link) ∧
      ∀ element, state.isConsumed element = true → later.isConsumed element = true := by
  cases step with
  | accept | reject => exact State.record_keeps setting state _ _
  | @standIn file own other stands =>
      obtain ⟨links, consumed⟩ := State.record_keeps setting { state with file } own other
      refine ⟨fun element link found => links element link ?_, consumed⟩
      rw [Source.File.link?, stands.links]
      exact found
  | note | aliased | compared | enter | turn | resolve => exact ⟨fun _ _ => id, fun _ => id⟩

theorem Move.onlyAdds {before after : Outcome} (move : Move plan before after) :
    OnlyAdds before after := by
  cases move with
  | openFile =>
      exact ⟨fun _ _ found => linkAt_append_single.mpr (.inl found), fun _ => id⟩
  | step taken =>
      obtain ⟨links, consumed⟩ := taken.keeps
      refine ⟨fun handle link found => ?_, consumed⟩
      rw [linkAt_append_single] at found ⊢
      exact found.imp_right fun last => ⟨last.1, links handle.element link last.2⟩
  | reveal => exact ⟨fun _ _ => id, fun _ => id⟩

/-- A match that is not made leaves the registry and the file as they were. -/
theorem State.record_rejected {setting : Setting} {state : State} {own : Source.Ref}
    {other : Compiled.Ref} (rejected : state.registry.record? setting.pool setting.fileIndex own other
      state.file = none) :
    (state.record setting own other).registry = state.registry ∧
      (state.record setting own other).file = state.file := by
  rw [State.record, rejected]
  exact ⟨rfl, rfl⟩

/-! ### The merged matches -/

/-- Every linked element is listed exactly once, under the id of its link, and nothing else is. -/
structure MergedOnce (files : List Source.File) (merged : List (String × List SourceHandle)) :
    Prop where
  keys_nodup : (merged.map Prod.fst).Nodup
  handles_nodup : (merged.flatMap Prod.snd).Nodup
  listed : ∀ id handle, (∃ group, (id, group) ∈ merged ∧ handle ∈ group) ↔
    ∃ link, linkAt files handle = some link ∧ link.id = id

/-- The linked elements of some files. -/
def linkedElements (files : List Source.File) : List SourceHandle :=
  files.zipIdx.flatMap fun (file, i) =>
    (file.allElements.filter fun element => file.isLinked element).map (SourceHandle.mk i)

theorem mem_linkedElements (formed : ∀ file ∈ files, file.WellFormed) {handle : SourceHandle} :
    handle ∈ linkedElements files ↔ ∃ link, linkAt files handle = some link := by
  simp only [linkedElements, List.mem_flatMap, Prod.exists, List.mk_mem_zipIdx_iff_getElem?,
    List.mem_map, List.mem_filter, Source.File.mem_allElements, linkAt, Option.bind_eq_some_iff]
  constructor
  · rintro ⟨file, i, found, element, ⟨_, linked⟩, rfl⟩
    obtain ⟨link, hasLink⟩ := Source.File.exists_link linked
    exact ⟨link, file, found, hasLink⟩
  · rintro ⟨link, file, found, hasLink⟩
    have linked := Source.File.isLinked_of_link hasLink
    have known := (formed file (List.mem_of_getElem? found)).linked _ linked
    exact ⟨file, handle.file, found, handle.element, ⟨known, linked⟩, rfl⟩

theorem nodup_linkedElements (files : List Source.File) : (linkedElements files).Nodup := by
  rw [linkedElements, List.nodup_flatMap]
  constructor
  · rintro ⟨file, i⟩ _
    have handles : Function.Injective (SourceHandle.mk i) := fun _ _ same =>
      congrArg SourceHandle.element same
    exact ((Source.File.nodup_allElements file).filter _).map handles
  · have numbers : (files.zipIdx.map Prod.snd).Nodup := by
      rw [List.zipIdx_map_snd]
      exact List.nodup_range'
    refine (List.pairwise_map.mp numbers).imp fun {entry next} different handle member later => ?_
    obtain ⟨_, _, rfl⟩ := List.mem_map.mp member
    obtain ⟨_, _, same⟩ := List.mem_map.mp later
    exact different (congrArg SourceHandle.file same).symm

/-- No more elements are linked than there are. -/
theorem length_linkedElements_le (files : List Source.File) :
    (linkedElements files).length ≤ (files.map fun file => file.allElements.length).sum := by
  have files_eq : files.map (fun file => file.allElements.length) =
      files.zipIdx.map fun entry => entry.1.allElements.length := by
    conv_lhs => rw [← List.zipIdx_map_fst 0 files, List.map_map]
    rfl
  rw [linkedElements, List.length_flatMap, files_eq]
  refine List.sum_le_sum fun entry _ => ?_
  rw [List.length_map]
  exact List.length_filter_le _ _

namespace Registry

variable {registry : Registry}

/-- The matches kind by kind. -/
def matchesByKind (registry : Registry) : List Match :=
  Compiled.Kind.all.flatMap registry.matchesOf

theorem mem_matchesByKind {entry : Match} :
    entry ∈ registry.matchesByKind ↔ entry ∈ registry.log.toList := by
  have every : entry.compiled.kind ∈ Compiled.Kind.all := by
    cases entry.compiled.kind <;> decide
  simp only [matchesByKind, List.mem_flatMap, matchesOf, List.mem_filter, decide_eq_true_eq]
  exact ⟨fun ⟨_, _, logged, _⟩ => logged, fun logged => ⟨_, every, logged, rfl⟩⟩

theorem nodup_matchesByKind (logged_nodup : registry.log.toList.Nodup) :
    registry.matchesByKind.Nodup := by
  have kinds : Compiled.Kind.all.Nodup := by decide
  rw [matchesByKind, List.nodup_flatMap]
  refine ⟨fun kind _ => logged_nodup.filter _, kinds.imp fun different entry member later => ?_⟩
  rw [matchesOf, List.mem_filter, decide_eq_true_eq] at member later
  exact different (member.2.symm.trans later.2)

theorem merge_handles : registry.merge.flatMap Prod.snd =
    ((groupBy Match.id registry.matchesByKind).flatMap Prod.snd).map Match.source := by
  rw [merge, List.flatMap_map, List.map_flatMap]
  rfl

theorem mem_merge {id : String} {handle : SourceHandle} :
    (∃ group, (id, group) ∈ registry.merge ∧ handle ∈ group) ↔
      ∃ entry ∈ registry.log.toList, entry.id = id ∧ entry.source = handle := by
  simp only [merge, List.mem_map, Prod.exists, Prod.mk.injEq]
  constructor
  · rintro ⟨_, ⟨_, group, isGroup, rfl, rfl⟩, member⟩
    obtain ⟨entry, isMember, rfl⟩ := List.mem_map.mp member
    obtain ⟨listed, same⟩ := (mem_group_iff isGroup).mp isMember
    exact ⟨entry, mem_matchesByKind.mp listed, same, rfl⟩
  · rintro ⟨entry, logged, rfl, rfl⟩
    have listed := mem_matchesByKind.mpr logged
    refine ⟨_, ⟨_, _, mem_groupBy_of_mem listed, rfl, rfl⟩, List.mem_map.mpr ⟨entry, ?_, rfl⟩⟩
    exact List.mem_filter.mpr ⟨listed, decide_eq_true rfl⟩

end Registry

theorem Accounted.mergedOnce {pool : Compiled.Pool} {registry : Registry}
    (accounted : Accounted pool files registry) : MergedOnce files registry.merge where
  keys_nodup := by
    rw [Registry.merge, List.map_map]
    exact List.pairwise_map.mpr (groupBy_keys_apart Match.id registry.matchesByKind)
  handles_nodup := by
    rw [Registry.merge_handles]
    have logged_nodup := accounted.apart.of_map
    apply (nodup_flatMap_groupBy (Registry.nodup_matchesByKind logged_nodup)).map_on
    intro entry member other otherMember same
    rw [mem_flatMap_groupBy, Registry.mem_matchesByKind, accounted.logged] at member otherMember
    rw [same] at member
    obtain ⟨compiled, id⟩ := Source.Link.mk.inj (Option.some.inj (member.symm.trans otherMember))
    obtain ⟨_, _, _⟩ := entry
    obtain ⟨_, _, _⟩ := other
    exact Match.mk.injEq .. ▸ ⟨compiled, id, same⟩
  listed id handle := by
    rw [Registry.mem_merge]
    constructor
    · rintro ⟨entry, logged, rfl, rfl⟩
      exact ⟨_, (accounted.logged entry).mp logged, rfl⟩
    · rintro ⟨link, linked, rfl⟩
      exact ⟨_, accounted.mem_log linked, rfl, rfl⟩

/-- A report lists as many elements as are merged. -/
theorem elementCount_ofOutcome (plan : Plan) (found : List Diagnostic) (outcome : Outcome) :
    (Report.ofOutcome plan found outcome).elementCount =
      (outcome.ledger.registry.merge.flatMap Prod.snd).length := by
  simp only [Report.ofOutcome, Report.elementCount, List.flatMap_map, List.length_flatMap,
    List.length_map]

/-! ### The matches of a run -/

/-- Links, registry and report tell the same matches. -/
structure Outcome.Consistent (plan : Plan) (outcome : Outcome) : Prop where
  once : ∀ handle other link otherLink, linkAt outcome.files handle = some link →
    linkAt outcome.files other = some otherLink → link.compiled = otherLink.compiled →
      handle = other
  consumed : ∀ element, outcome.ledger.registry.isConsumed element = true ↔
    ∃ handle link, linkAt outcome.files handle = some link ∧ link.compiled = element
  named : ∀ handle link, linkAt outcome.files handle = some link →
    link.id = plan.pool.elementId link.compiled
  merged : MergedOnce outcome.files outcome.ledger.registry.merge
  counted : ∀ found, (Report.ofOutcome plan found outcome).elementCount =
    (linkedElements outcome.files).length

theorem Outcome.Sound.consistent (sound : outcome.Sound plan files) : outcome.Consistent plan where
  once _ _ _ _ := sound.accounted.once
  consumed _ := sound.accounted.isConsumed_iff
  named _ _ := sound.accounted.id_eq
  merged := sound.accounted.mergedOnce
  counted found := by
    have merged := sound.accounted.mergedOnce
    rw [elementCount_ofOutcome]
    refine ((List.perm_ext_iff_of_nodup merged.handles_nodup (nodup_linkedElements _)).mpr
      fun handle => ?_).length_eq
    rw [mem_linkedElements fun file member => (sound.fitted 0 file member).formed, List.mem_flatMap,
      Prod.exists, exists_congr fun id => merged.listed id handle]
    exact ⟨fun ⟨_, link, linked, _⟩ => ⟨link, linked⟩, fun ⟨link, linked⟩ => ⟨_, link, linked, rfl⟩⟩

/-- Every run takes a compiled element at most once and tells so everywhere alike.  It only ever adds
matches, and a match that is not made changes none. -/
theorem run_consistent (built : plan.pool.IsBuilt) (reachable : ∀ file ∈ files, file.Reachable)
    (unlinked : ∀ file ∈ files, ∀ element, file.isLinked element = false) :
    (run plan files).Consistent plan ∧
      Relation.ReflTransGen (Move plan) {} (run plan files) ∧
      (∀ before after, Move plan before after → OnlyAdds before after) ∧
      ∀ (setting : Setting) (state : State) (own : Source.Ref) (other : Compiled.Ref),
        state.registry.record? setting.pool setting.fileIndex own other state.file = none →
          (state.record setting own other).registry = state.registry ∧
            (state.record setting own other).file = state.file :=
  ⟨(run_sound built reachable unlinked).consistent, run_moves built reachable unlinked,
    fun _ _ => Move.onlyAdds, fun _ _ _ _ => State.record_rejected⟩

theorem run_consistent_sample : (run samplePlan [sampleFile]).Consistent samplePlan ∧
    (linkedElements (run samplePlan [sampleFile]).files).length = 4 :=
  ⟨(run_consistent samplePlan_isBuilt sampleFile_reachable sampleFile_unlinked).1,
    by decide +kernel⟩

end Correlate.Matching
