/-
Module: Correlate.Proofs.Order
Purpose: Where the order of lines is checked, no two matches of one group contradict it.
Main exports: InGroup, Ordered, Pass.ordered, Passes.ordered, run_ordered
-/
import Correlate.Proofs.Matching.BodyOrder
import Correlate.Proofs.Matching.Runs

namespace Correlate.Matching

/-!
The statements of a method are matched once, all groups of it in one pass.  Nothing in the method is
linked before, and what the later passes link is in no group of the source: reads of enclosing
instances, arrays that calls create, and stand-ins.
-/

/-- An element of a method that a file has is linked in a later state of the file, and its match
belongs to a group. -/
structure InGroup (before later : Source.File) (method : Source.Handle .method) (key : GroupKey)
    (own : Source.Ref) (other : Compiled.Ref) : Prop where
  known : own.index < before.count own.kind
  owned : before.owningMethod? own = some method
  linked : ∃ id, later.link? own = some ⟨other, id⟩
  grouped : groupOf? before own other = some key

/-- No two matches in one group of a method come in opposite orders. -/
def Ordered (pool : Compiled.Pool) (before later : Source.File) : Prop :=
  ∀ method key first firstOther second secondOther,
    InGroup before later method key first firstOther →
    InGroup before later method key second secondOther →
    ¬ Inverted pool before (first, firstOther) (second, secondOther)

/-- What an element is grouped by stays. -/
theorem groupOf_of_extends {before later : Source.File} (extended : before.Extends later)
    {own : Source.Ref} (known : own.index < before.count own.kind) (other : Compiled.Ref) :
    groupOf? later own other = groupOf? before own other := by
  obtain ⟨kind, i⟩ := own
  cases kind with
  | invocation => simp only [groupOf?, State.callKey, extended.invocationAt known]
  | allocation => simp only [groupOf?, extended.allocationAt known]
  | fieldAccess => simp only [groupOf?, extended.fieldAccessAt]
  | methodRef => simp only [groupOf?, extended.methodRefAt]
  | _ => rfl

theorem inverted_of_extends {pool : Compiled.Pool} {before later : Source.File}
    (extended : before.Extends later) {first second : Source.Ref × Compiled.Ref}
    (firstKnown : first.1.index < before.count first.1.kind)
    (secondKnown : second.1.index < before.count second.1.kind) :
    Inverted pool later first second ↔ Inverted pool before first second := by
  unfold Inverted
  rw [extended.startLine firstKnown, extended.startLine secondKnown]

namespace Ordered

variable {pool : Compiled.Pool} {before file later : Source.File}

/-- Nothing is linked yet. -/
theorem of_unlinked (unlinked : ∀ element, file.isLinked element = false) :
    Ordered pool before file := by
  intro method key first firstOther second secondOther isFirst
  obtain ⟨id, found⟩ := isFirst.linked
  exact absurd found (Source.File.not_link_of_unlinked (unlinked first))

/-- What is linked in addition is in no group of the source. -/
theorem of_ungrouped (ordered : Ordered pool before file)
    (old : ∀ own link, later.link? own = some link → file.link? own = some link ∨
      (own.index < before.count own.kind → groupOf? before own link.compiled = none)) :
    Ordered pool before later := by
  have kept {method : Source.Handle .method} {key : GroupKey} {own : Source.Ref}
      {other : Compiled.Ref} (isMember : InGroup before later method key own other) :
      InGroup before file method key own other := by
    obtain ⟨id, found⟩ := isMember.linked
    rcases old own _ found with isOld | isUngrouped
    · exact { isMember with linked := ⟨id, isOld⟩ }
    · cases (isUngrouped isMember.known).symm.trans isMember.grouped
  intro method key first firstOther second secondOther isFirst isSecond
  exact ordered _ _ _ _ _ _ (kept isFirst) (kept isSecond)

end Ordered

/-! ### Passes -/

namespace Pass

variable {setting : Setting} {done : List Source.File} {before : Source.File}
  {state later : State} {pair : MethodPair}

/-- The statements of an untouched method. -/
theorem statements_ordered (verified : setting.options.verifyOrdering = true)
    (formed : state.file.WellFormed) (extended : before.Extends state.file)
    (untouched : state.file.Untouched pair.1) (ordered : Ordered setting.pool before state.file) :
    Ordered setting.pool before (state.matchStatements setting pair.1 pair.2).file := by
  have settles := @State.matchStatements_settles setting state pair.1 pair.2 verified formed
  generalize state.matchStatements setting pair.1 pair.2 = later at settles ⊢
  -- A match in a group is an old one of another method or a new one of this method.
  have oldOrNew {method : Source.Handle .method} {key : GroupKey} {own : Source.Ref}
      {other : Compiled.Ref} (isMember : InGroup before later.file method key own other) :
      method ≠ pair.1 ∧ InGroup before state.file method key own other ∨
        method = pair.1 ∧ Gained (state.addPair pair) later own other ∧
          groupOf? state.file own other = some key := by
    obtain ⟨id, found⟩ := isMember.linked
    have owned := (extended.owningMethod isMember.known).trans isMember.owned
    have grouped := (groupOf_of_extends extended isMember.known other).trans isMember.grouped
    cases isOld : state.file.isLinked own with
    | true =>
        obtain ⟨link, isLink⟩ := Source.File.exists_link isOld
        obtain rfl := Option.some.inj ((settles.gains.link_kept own link isLink).symm.trans found)
        refine .inl ⟨?_, { isMember with linked := ⟨id, isLink⟩ }⟩
        rintro rfl
        cases (untouched own owned).symm.trans isOld
    | false =>
        have gained : Gained (state.addPair pair) later own other := ⟨isOld, id, found⟩
        have within := settles.gains.permits gained key grouped
        exact .inr ⟨Option.some.inj (owned.symm.trans within.1), gained, grouped⟩
  intro method key first firstOther second secondOther isFirst isSecond
  rcases oldOrNew isFirst with ⟨elsewhere, firstOld⟩ | ⟨here, firstNew, firstKey⟩
  · rcases oldOrNew isSecond with ⟨_, secondOld⟩ | ⟨here, _⟩
    · exact ordered _ _ _ _ _ _ firstOld secondOld
    · exact absurd here elsewhere
  · rcases oldOrNew isSecond with ⟨elsewhere, _⟩ | ⟨_, secondNew, secondKey⟩
    · exact absurd here elsewhere
    · intro inverted
      apply settles.inOrder firstNew secondNew firstKey secondKey
      exact (inverted_of_extends extended isFirst.known isSecond.known).mpr inverted

theorem outerThis_ordered (extended : before.Extends state.file)
    (ordered : Ordered setting.pool before state.file) :
    Ordered setting.pool before (state.matchOuterThis setting pair).file := by
  apply ordered.of_ungrouped
  intro own link found
  apply (State.matchOuterThis_gains.link_new own link found).imp_right
  rintro ⟨access, rfl, qualified⟩ _
  rw [extended.fieldAccessAt] at qualified
  apply if_neg
  rw [Option.isNone_iff_eq_none]
  intro plain
  rw [show (before.fieldAccessAt access).outerThis = none from plain] at qualified
  cases qualified

theorem arrays_ordered (ordered : Ordered setting.pool before state.file) :
    Ordered setting.pool before (state.matchReflectiveArrays setting pair).file := by
  apply ordered.of_ungrouped
  intro own link found
  apply (State.matchReflectiveArrays_gains.link_new own link found).imp_right
  rintro ⟨isAllocation, isCall⟩ _
  rw [groupOf?, isAllocation, isCall]
  exact if_neg (by decide)

/-- Every pass keeps the order. -/
theorem ordered (verified : setting.options.verifyOrdering = true)
    (sound : state.Sound setting done) (extended : before.Extends state.file)
    (ordered : Ordered setting.pool before state.file) (pass : Pass setting state later) :
    Ordered setting.pool before later.file := by
  have members {own : Source.Ref} (isMember : IsMember own) (other : Compiled.Ref) :
      groupOf? before own other = none := by
    rw [groupOf?]
    rcases isMember with isKind | isKind | isKind <;> rw [isKind]
  cases pass with
  | @offer _ offered other sought unlinked =>
      apply ordered.of_ungrouped
      intro own link found
      have gains := @Gains.record (fun own _ => IsMember own) state setting offered other
        sought.isMember
      exact (gains.link_new own link found).imp_right fun isMember _ => members isMember _
  | members fits links =>
      apply ordered.of_ungrouped
      intro own link found
      apply (links.gains.link_new own link found).imp_right
      exact fun permission _ => members (fits _ _ permission).2 _
  | turn => exact ordered
  | statements linked untouched =>
      exact statements_ordered verified sound.current.formed extended untouched ordered
  | outerThis linked => exact outerThis_ordered extended ordered
  | arrays linked => exact arrays_ordered ordered
  | @standIn _ file standIn other placed opened =>
      apply ordered.of_ungrouped
      intro own link found
      have isStandIn : state.file.count standIn.kind ≤ standIn.index :=
        Nat.le_of_eq placed.standsIn.index.symm
      have gains := @Gains.record (fun own _ => own = standIn) { state with file } setting standIn
        other rfl
      rcases gains.link_new own link found with isOld | rfl
      · rw [Source.File.link?, placed.standsIn.links] at isOld
        exact .inl isOld
      · refine .inr fun known => ?_
        exact absurd (Nat.lt_of_lt_of_le known (extended.count_le own.kind))
          (Nat.not_lt_of_le isStandIn)
  | resolve usage name => exact ordered.of_ungrouped fun _ _ => .inl

end Pass

/-- A sequence of passes keeps the order. -/
theorem Passes.ordered {setting : Setting} {done : List Source.File} {start later : State}
    (verified : setting.options.verifyOrdering = true) (sound : start.Sound setting done)
    (unlinked : ∀ element, start.file.isLinked element = false)
    (passes : Passes setting start later) :
    later.Sound setting done ∧ start.Grows later ∧
      Ordered setting.pool start.file later.file := by
  induction passes with
  | refl => exact ⟨sound, .refl start, .of_unlinked unlinked⟩
  | tail _ pass inductionHypothesis =>
      obtain ⟨currentSound, grown, ordered⟩ := inductionHypothesis
      obtain ⟨laterSound, more⟩ := (pass.steps currentSound).sound_grows currentSound
      exact ⟨laterSound, grown.trans more, pass.ordered verified currentSound grown.extended ordered⟩

/-! ### Whole runs -/

/-- Where a run checks the order of lines, the matches in each group of a method are in order. -/
theorem run_ordered {plan : Plan} {files : List Source.File} (built : plan.pool.IsBuilt)
    (reachable : ∀ file ∈ files, file.Reachable)
    (unlinked : ∀ file ∈ files, ∀ element, file.isLinked element = false)
    (verified : plan.options.verifyOrdering = true) :
    ∀ (i : Nat) (before after : Source.File), files[i]? = some before →
      (run plan files).files[i]? = some after → Ordered plan.pool before after := by
  intro i before after isBefore isAfter
  obtain ⟨start, final, turn, rfl⟩ :=
    (run_sound built reachable unlinked).turn_of_final isAfter
  obtain rfl := Option.some.inj (turn.start_file.symm.trans isBefore)
  exact (turn.passes.ordered verified turn.sound turn.unlinked).2.2

/-- A method that calls `go` on two lines. -/
def twoCallsPlan : Plan :=
  let go : Compiled.Signature := { name := "go", params := [], returnType := "void" }
  let steps : List Compiled.Step :=
    [.type "a.B", .method ⟨0⟩ { name := "m", params := [], returnType := "void" } {},
      .invocation ⟨0⟩ "a.C" go (some 3), .invocation ⟨0⟩ "a.C" go (some 5)]
  { pool := (({} : Compiled.Builder).performAll steps).1.finish.pool }

/-- The source of the method. -/
def twoCallsFile : Source.File :=
  ({ path := "B.java", package := "a" } : Source.File).performAll
    [.type "B" none none, .method ⟨0⟩ "m" none false none,
      .invocation ⟨1⟩ "go" 0 (some (.wholeLine 3)) none none,
      .invocation ⟨1⟩ "go" 0 (some (.wholeLine 5)) none none]

/-- Both calls are matched, and the order is kept. -/
theorem run_ordered_twoCalls : ∃ after, (run twoCallsPlan [twoCallsFile]).files[0]? = some after ∧
    Ordered twoCallsPlan.pool twoCallsFile after ∧
    after.isLinked ⟨.invocation, 0⟩ = true ∧ after.isLinked ⟨.invocation, 1⟩ = true := by
  have built : twoCallsPlan.pool.IsBuilt := by
    refine ⟨_, Compiled.Builder.Reachable.empty.performAll ?admitted, rfl⟩
    exact ⟨trivial, Nat.zero_lt_one, Nat.zero_lt_one, Nat.zero_lt_one, trivial⟩
  have reachable : ∀ file ∈ [twoCallsFile], file.Reachable := by
    refine List.forall_mem_singleton.mpr ?_
    refine (Source.File.Reachable.empty "B.java" "a").performAll ?known
    exact ⟨nofun, Nat.zero_lt_one, ⟨Nat.one_lt_two, nofun, nofun⟩,
      ⟨Nat.one_lt_two, nofun, nofun⟩, trivial⟩
  have unlinked : ∀ file ∈ [twoCallsFile], ∀ element, file.isLinked element = false :=
    List.forall_mem_singleton.mpr fun _ => rfl
  have matched : ((run twoCallsPlan [twoCallsFile]).files[0]?.any fun after =>
      after.isLinked ⟨.invocation, 0⟩ && after.isLinked ⟨.invocation, 1⟩) = true := by
    decide +kernel
  obtain ⟨after, isAfter, linked⟩ := (Option.any_eq_true _ _).mp matched
  have ordered := run_ordered built reachable unlinked (by decide) 0 twoCallsFile after rfl isAfter
  exact ⟨after, isAfter, ordered, Bool.and_eq_true_iff.mp linked⟩

end Correlate.Matching
