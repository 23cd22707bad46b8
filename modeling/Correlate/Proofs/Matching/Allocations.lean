/-
Module: Correlate.Proofs.Matching.Allocations
Purpose: What matching the allocations of two methods comes to.
Main exports: dimensions_of_key, State.matchAllocations_links, State.matchAllocations_even,
  State.matchReflectiveArrays_paired, State.matchReflectiveArrays_links
-/
import Correlate.Matching.Allocation
import Correlate.Proofs.Matching.Fit
import Correlate.Proofs.Matching.Groups
import Correlate.Proofs.Spelling

namespace Correlate.Matching

/-- Allocations with the same key have equally many dimensions. -/
theorem dimensions_of_key {one other : Source.Allocation}
    (same : allocationKey one = allocationKey other) : one.dimensions = other.dimensions :=
  TypeName.dimensions_of_text same

namespace State

variable {setting : Setting} {state : State} {source : Source.Handle .method}
  {compiled : Compiled.Handle .method}

/-! ### Allocations -/

/-- The allocations of a method with a key. -/
def allocationsOf (file : Source.File) (source : Source.Handle .method) (key : String) :
    List (Source.Handle .allocation) :=
  (file.methodAt source).allocations.filter fun allocation =>
    allocationKey (file.allocationAt allocation) = key

/-- The compiled allocations of a method with a key. -/
def compiledAllocationsOf (pool : Compiled.Pool) (compiled : Compiled.Handle .method)
    (key : String) : List (Compiled.Handle .allocation) :=
  (pool.methodAt compiled).allocations.filter fun allocation =>
    compiledAllocationKey (pool.allocationAt allocation) = key

/-- Line by line, allocations of a group are matched with open compiled ones. -/
theorem allocationsOnLine_links {sources : List (Source.Handle .allocation)}
    {candidates : List (Compiled.Handle .allocation)} (sources_nodup : sources.Nodup)
    (unlinked : ∀ own ∈ sources, state.file.isLinked own.ref = false) :
    LinkSteps setting (Between sources candidates) state
      (sources.foldl (matchAllocationOnLine setting sources candidates) state) := by
  have pass := @foldl_links _ setting state (matchAllocationOnLine setting sources candidates)
    (fun a own other => own = a.ref ∧ ∃ c ∈ candidates, other = c.ref)
    (fun a current => current.file.isLinked a.ref = false) (fun _ _ => True) sources
  refine (pass ?advance ?kept (fun _ _ _ _ _ _ => trivial) unlinked).1.mono ?weaker
  case weaker =>
    rintro own other ⟨a, isSource, rfl, c, isCandidate, rfl⟩
    exact ⟨a, isSource, c, isCandidate, rfl, rfl⟩
  case kept =>
    refine sources_nodup.imp fun {a next} apart current later steps clear => ?_
    exact steps.unlinked clear fun _ same => apart (ref_injective same.1.symm)
  case advance =>
    intro a _ current _ clear
    refine ⟨?_, trivial⟩
    unfold matchAllocationOnLine
    split
    · exact .refl
    · dsimp only
      split
      · next c found =>
        split
        · have opened : current.isConsumed c.ref = false := by
            have chosen := List.find?_some found
            simpa using (Bool.and_eq_true_iff.mp chosen).1
          refine .single (.accept ⟨rfl, c, List.mem_of_find?_eq_some found, rfl⟩ ?_)
          exact accepts_iff.mpr ⟨opened, clear⟩
        · exact .refl
      · exact .refl

/-- What the pass over allocations brings a group to.  An array of several dimensions may stay open
without a note. -/
def AllocationsSettled (setting : Setting) (state : State) (file : Source.File)
    (source : Source.Handle .method) (compiled : Compiled.Handle .method) (key : String) : Prop :=
  PairedInOrder setting state.file (allocationsOf file source key)
      (compiledAllocationsOf setting.pool compiled key) ∧
    ∀ own ∈ allocationsOf file source key, (file.allocationAt own).dimensions ≤ 1 →
      state.Settled own.ref

/-- There are as many allocations of a key on both sides, and the order of lines lets them be paired. -/
def AllocationsEven (setting : Setting) (file : Source.File) (source : Source.Handle .method)
    (compiled : Compiled.Handle .method) (key : String) : Prop :=
  (allocationsOf file source key).length =
      (compiledAllocationsOf setting.pool compiled key).length ∧
    InOrder setting file (allocationsOf file source key)
      (compiledAllocationsOf setting.pool compiled key)

/-- A match of allocations of a key.  Unless the run is lossy, these are paired by position. -/
def AllocationsMatch (setting : Setting) (file : Source.File) (source : Source.Handle .method)
    (compiled : Compiled.Handle .method) (key : String) (own : Source.Ref)
    (other : Compiled.Ref) : Prop :=
  Between (allocationsOf file source key) (compiledAllocationsOf setting.pool compiled key)
      own other ∧
    (setting.options.lossy = false → AllocationsEven setting file source compiled key)

theorem matchAllocationGroup_links {file : Source.File}
    {candidates : Grouping String (Compiled.Handle .allocation)} {key : String}
    (found : candidates.members key = compiledAllocationsOf setting.pool compiled key)
    (same : file.Relinked state.file) (sources_nodup : (allocationsOf file source key).Nodup)
    (compiled_nodup : (compiledAllocationsOf setting.pool compiled key).Nodup)
    (unlinked : ∀ own ∈ allocationsOf file source key, state.file.isLinked own.ref = false)
    (opened : ∀ other ∈ compiledAllocationsOf setting.pool compiled key,
      state.isConsumed other.ref = false) :
    let final := state.matchAllocationGroup setting candidates (key, allocationsOf file source key)
    LinkSteps setting (AllocationsMatch setting file source compiled key) state final ∧
      AllocationsSettled setting final file source compiled key := by
  dsimp only
  unfold matchAllocationGroup
  dsimp only
  rw [found]
  split
  · next sized =>
    obtain ⟨_, paired, settled⟩ := pairZip_links s!"allocations of {key}" sized.symm
      sources_nodup compiled_nodup unlinked opened
    have steps := @pairZip_inOrder setting _ _ _ _ state s!"allocations of {key}" sized.symm
      sources_nodup compiled_nodup unlinked opened
    refine ⟨steps.mono fun own other zipped => ⟨zipped.1.between, fun _ => ⟨sized.symm, ?_⟩⟩,
      paired, fun own member _ => settled own member⟩
    exact (InOrder.of_lines fun own _ => same.startLine own.ref).mp zipped.2
  · next uneven =>
    have onLine (noted : State)
        (steps : LinkSteps setting (AllocationsMatch setting file source compiled key) state noted)
        (stillUnlinked : ∀ own ∈ allocationsOf file source key,
          noted.file.isLinked own.ref = false)
        (noticed : ∀ own ∈ allocationsOf file source key,
          (file.allocationAt own).dimensions ≤ 1 → noted.Noticed) :
        let final := if setting.options.lossy then
            (allocationsOf file source key).foldl (matchAllocationOnLine setting
              (allocationsOf file source key) (compiledAllocationsOf setting.pool compiled key)) noted
          else noted
        LinkSteps setting (AllocationsMatch setting file source compiled key) state final ∧
          AllocationsSettled setting final file source compiled key := by
      dsimp only
      split
      · next lossy =>
        have last := @allocationsOnLine_links setting noted _
          (compiledAllocationsOf setting.pool compiled key) sources_nodup stillUnlinked
        exact ⟨steps.trans (last.mono fun _ _ between =>
            ⟨between, fun strict => absurd (lossy.symm.trans strict) nofun⟩),
          fun sized => absurd sized.symm uneven,
          fun own member few => .inr (last.noticed (noticed own member few))⟩
      · exact ⟨steps, fun sized => absurd sized.symm uneven,
          fun own member few => .inr (noticed own member few)⟩
    refine onLine _ ?steps ?stillUnlinked ?noticed
    case steps =>
      split
      · exact .refl
      · refine .single (.note _ ?_)
        exact nofun
    case stillUnlinked => split <;> exact unlinked
    case noticed =>
      intro own member few
      split
      · next byCall =>
        -- A note is left out only where the whole group has several dimensions.
        obtain ⟨first, isFirst, several⟩ :=
          (Option.any_eq_true _ _).mp (Bool.and_eq_true_iff.mp byCall).2
        have firstKey := of_decide_eq_true (List.mem_filter.mp (List.mem_of_head? isFirst)).2
        have ownKey := of_decide_eq_true (List.mem_filter.mp member).2
        have alike := dimensions_of_key (firstKey.trans ownKey.symm)
        rw [same.allocationAt] at several
        have many := of_decide_eq_true several
        omega
      · exact noticed_notice _ _

/-- The pass over allocations matches those of one key with each other. -/
theorem matchAllocations_groups (formed : state.file.WellFormed)
    (poolFormed : setting.pool.WellFormed)
    (unlinked : ∀ own ∈ (state.file.methodAt source).allocations,
      state.file.isLinked own.ref = false)
    (opened : ∀ other ∈ (setting.pool.methodAt compiled).allocations,
      state.isConsumed other.ref = false) :
    let final := state.matchAllocations setting source compiled
    LinkSteps setting
        (fun own other => ∃ key, AllocationsMatch setting state.file source compiled key own other)
        state final ∧
      ∀ key, AllocationsSettled setting final state.file source compiled key := by
  have sources_nodup := (formed.list_nodup .allocation source).of_map _
  have compiled_nodup := (poolFormed.list_nodup .allocation compiled).of_map _
  have candidates (key : String) : (state.openAllocations setting compiled).members key =
      compiledAllocationsOf setting.pool compiled key := by
    rw [openAllocations, openOf_eq opened, members_groupBy]
    rfl
  have pass := @foldl_groups setting .allocation .allocation
    (state.file.methodAt source).allocations (setting.pool.methodAt compiled).allocations _ _ state
    (fun allocation => allocationKey (state.file.allocationAt allocation))
    (fun allocation => compiledAllocationKey (setting.pool.allocationAt allocation))
    (matchAllocationGroup setting (state.openAllocations setting compiled))
    (AllocationsMatch setting state.file source compiled)
    (fun key current => AllocationsSettled setting current state.file source compiled key)
    _ (List.Sublist.refl _) (fun _ _ _ => And.left)
  obtain ⟨steps, ends⟩ := by
    refine pass ?advance ?lasting unlinked opened
    case advance =>
      intro key current _ steps groupUnlinked groupOpened
      exact matchAllocationGroup_links (candidates key) steps.gains.relinked
        (sources_nodup.filter _) (compiled_nodup.filter _) groupUnlinked groupOpened
    case lasting =>
      exact fun key current later steps settled => ⟨steps.pairedInOrder settled.1,
        fun own member few => steps.settled (settled.2 own member few)⟩
  refine ⟨steps.mono fun own other ⟨key, _, permission⟩ => ⟨key, permission⟩, fun key => ?_⟩
  by_cases present : ∃ own, own ∈ allocationsOf state.file source key
  · obtain ⟨own, member⟩ := present
    obtain ⟨listed, keyed⟩ := List.mem_filter.mp member
    obtain rfl := of_decide_eq_true keyed
    exact ends _ (mem_groupBy_of_mem listed)
  · refine ⟨fun _ _ i own other isOwn => ?_, fun own member => absurd ⟨own, member⟩ present⟩
    exact absurd ⟨own, List.mem_of_getElem? isOwn⟩ present

theorem matchAllocations_links (formed : state.file.WellFormed)
    (poolFormed : setting.pool.WellFormed)
    (unlinked : ∀ own ∈ (state.file.methodAt source).allocations,
      state.file.isLinked own.ref = false)
    (opened : ∀ other ∈ (setting.pool.methodAt compiled).allocations,
      state.isConsumed other.ref = false) :
    let final := state.matchAllocations setting source compiled
    LinkSteps setting (FitsOfKind setting state.file source compiled .allocation .allocation)
        state final ∧
      ∀ key, AllocationsSettled setting final state.file source compiled key := by
  obtain ⟨steps, settled⟩ := matchAllocations_groups formed poolFormed unlinked opened
  refine ⟨steps.mono fun own other permission => ?_, settled⟩
  obtain ⟨key, ⟨a, isSource, c, isCompiled, rfl, rfl⟩, _⟩ := permission
  obtain ⟨listed, keyed⟩ := List.mem_filter.mp isSource
  obtain ⟨compiledListed, compiledKeyed⟩ := List.mem_filter.mp isCompiled
  exact ⟨rfl, rfl, .allocation listed compiledListed
    ((of_decide_eq_true compiledKeyed).trans (of_decide_eq_true keyed).symm)⟩

/-- A strict run only matches allocations of keys with as many of them on both sides. -/
theorem matchAllocations_even (strict : setting.options.lossy = false)
    (formed : state.file.WellFormed) (poolFormed : setting.pool.WellFormed)
    (unlinked : ∀ own ∈ (state.file.methodAt source).allocations,
      state.file.isLinked own.ref = false)
    (opened : ∀ other ∈ (setting.pool.methodAt compiled).allocations,
      state.isConsumed other.ref = false)
    {own : Source.Handle .allocation} (listed : own ∈ (state.file.methodAt source).allocations)
    {link : Source.Link}
    (found : (state.matchAllocations setting source compiled).file.link? own.ref = some link) :
    ∃ key, own ∈ allocationsOf state.file source key ∧
      AllocationsEven setting state.file source compiled key := by
  obtain ⟨steps, _⟩ := @matchAllocations_groups setting state source compiled formed poolFormed
    unlinked opened
  rcases steps.gains.link_new own.ref link found with before | ⟨key, between, even⟩
  · exact absurd before (Source.File.not_link_of_unlinked (unlinked own listed))
  · obtain ⟨a, member, _, _, isOwn, _⟩ := between
    obtain rfl := ref_injective isOwn
    exact ⟨key, member, even strict⟩

/-! ### Arrays of several dimensions -/

theorem mem_openArrays {own : Source.Handle .allocation} : own ∈ state.openArrays source ↔
    own ∈ (state.file.methodAt source).allocations ∧
      1 < (state.file.allocationAt own).dimensions ∧ state.file.isLinked own.ref = false := by
  simp [openArrays]

theorem mem_openArrayCalls {other : Compiled.Handle .invocation} :
    other ∈ state.openArrayCalls setting compiled ↔
      other ∈ (setting.pool.methodAt compiled).invocations ∧
        (setting.pool.invocationAt other).namingId = ReservedName.reflectiveArrayFactory ∧
        state.isConsumed other.ref = false := by
  simp [openArrayCalls, openOf]

/-- As many open arrays of several dimensions as open calls that create arrays, and the order of lines
lets them be paired. -/
def ArraysEven (setting : Setting) (state : State) (pair : MethodPair) : Prop :=
  (state.openArrays pair.1).length = (state.openArrayCalls setting pair.2).length ∧
    InOrder setting state.file (state.openArrays pair.1) (state.openArrayCalls setting pair.2)

/-- Open arrays of several dimensions are paired with open calls that create arrays, where there are
equally many of both. -/
theorem matchReflectiveArrays_paired (formed : state.file.WellFormed)
    (poolFormed : setting.pool.WellFormed) (pair : MethodPair) :
    let final := state.matchReflectiveArrays setting pair
    LinkSteps setting
        (fun own other => ArraysEven setting state pair ∧
          Zipped (state.openArrays pair.1) (state.openArrayCalls setting pair.2) own other)
        state final ∧
      (ArraysEven setting state pair → Paired setting final.file (state.openArrays pair.1)
        (state.openArrayCalls setting pair.2)) := by
  dsimp only
  unfold matchReflectiveArrays
  dsimp only
  split
  · next sized =>
    have sources_nodup : (state.openArrays pair.1).Nodup :=
      ((formed.list_nodup .allocation pair.1).of_map _).filter _
    have compiled_nodup : (state.openArrayCalls setting pair.2).Nodup :=
      (((poolFormed.list_nodup .invocation pair.2).of_map _).filter _).filter _
    have lengths := of_decide_eq_true (Bool.and_eq_true_iff.mp sized).2
    have unlinked : ∀ own ∈ state.openArrays pair.1, state.file.isLinked own.ref = false :=
      fun own member => (mem_openArrays.mp member).2.2
    have opened : ∀ other ∈ state.openArrayCalls setting pair.2,
        state.isConsumed other.ref = false :=
      fun other member => (mem_openArrayCalls.mp member).2.2
    obtain ⟨_, paired, _⟩ := @pairZip_links setting _ _ _ _ state "reflective array creations"
      lengths sources_nodup compiled_nodup unlinked opened
    have steps := @pairZip_inOrder setting _ _ _ _ state "reflective array creations" lengths
      sources_nodup compiled_nodup unlinked opened
    refine ⟨steps.mono fun own other zipped => ⟨⟨lengths, zipped.2⟩, zipped.1⟩, fun even => ?_⟩
    refine paired lengths ((InOrder.of_lines fun own _ => ?_).mpr even.2)
    exact steps.gains.relinked.startLine own.ref
  · next unsized =>
    refine ⟨.refl, fun even i own other isOwn => absurd ?_ unsized⟩
    have present : state.openArrays pair.1 ≠ [] :=
      List.ne_nil_of_mem (List.mem_of_getElem? isOwn)
    simp [present, even.1]

theorem matchReflectiveArrays_links (formed : state.file.WellFormed)
    (poolFormed : setting.pool.WellFormed) (pair : MethodPair) :
    LinkSteps setting (StatementFits setting state.file pair.1 pair.2) state
      (state.matchReflectiveArrays setting pair) := by
  refine (matchReflectiveArrays_paired formed poolFormed pair).1.mono ?_
  rintro own other ⟨_, zipped⟩
  obtain ⟨a, isSource, c, isCompiled, rfl, rfl⟩ := zipped.between
  obtain ⟨listed, several, _⟩ := mem_openArrays.mp isSource
  obtain ⟨compiledListed, creates, _⟩ := mem_openArrayCalls.mp isCompiled
  exact .arrayCall listed compiledListed several creates

end State

end Correlate.Matching
