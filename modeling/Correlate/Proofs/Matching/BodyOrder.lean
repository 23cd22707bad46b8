/-
Module: Correlate.Proofs.Matching.BodyOrder
Purpose: Every pass over two bodies keeps the order of lines in the groups it matches.
Main exports: BodyPass.settles, State.matchStatements_settles, State.matchOuterThis_gains,
  State.matchReflectiveArrays_gains
-/
import Correlate.Proofs.Matching.Order

namespace Correlate.Matching

namespace State

variable {setting : Setting} {file : Source.File} {state : State} {source : Source.Handle .method}
  {compiled : Compiled.Handle .method}

/-- A match of two elements on one line. -/
def OnOneLine (setting : Setting) (file : Source.File) (own : Source.Ref) (other : Compiled.Ref) :
    Prop :=
  ∃ line, file.startLine? own = some line ∧ setting.pool.elementLine other = some line

/-- Matches line by line are in order. -/
theorem settles_of_lines {chosen : GroupKey → Prop} {permitted : Source.Ref → Compiled.Ref → Prop}
    {later : State} (gains : Gains permitted state later)
    (within : ∀ own other, permitted own other →
      Within file source chosen own other ∧ OnOneLine setting file own other) :
    Settles setting file source chosen state later := by
  apply Settles.of_gains gains
  · exact fun own other permission => (within own other permission).1
  · intro first firstOther second secondOther isFirst isSecond
    obtain ⟨_, firstLine, firstCompiled⟩ := (within _ _ isFirst).2
    obtain ⟨_, secondLine, secondCompiled⟩ := (within _ _ isSecond).2
    exact not_inverted_of_sameLine firstLine firstCompiled secondLine secondCompiled

/-! ### Variables -/

theorem matchVariables_settles {chosen : GroupKey → Prop} :
    Settles setting file source chosen state
      (state.matchVariables setting source compiled) := by
  have gains : Gains (fun own _ => own.kind = .variable) state
      (state.matchVariables setting source compiled) := by
    apply Gains.foldl
    rintro ⟨own, other⟩ _ current _
    have recorded : Gains (fun own _ => own.kind = .variable) current
        (current.record setting own.ref other.ref) := .record rfl
    have aliased (state : State) (symbol slot : String) :
        Gains (fun own _ => own.kind = .variable) state (state.addAlias symbol slot) :=
      @Gains.of_step setting _ _ _ (.aliased symbol slot)
    unfold matchVariable
    dsimp only
    split
    · exact recorded.trans (aliased _ _ _)
    · exact recorded
  apply Settles.of_ungrouped gains
  intro own other isVariable
  rw [groupOf?, isVariable]

/-! ### Calls -/

theorem within_calls (formed : file.WellFormed) {key : CallKey} {a : Source.Handle .invocation}
    (isCall : a ∈ callsTo file source key) (other : Compiled.Ref) :
    Within file source (· = .call key) a.ref other := by
  obtain ⟨listed, keyed⟩ := List.mem_filter.mp isCall
  apply Within.of_listed formed .invocation (List.mem_map_of_mem listed)
  intro groupKey grouped
  obtain rfl := of_decide_eq_true keyed
  exact (Option.some.inj grouped).symm

/-- Calls that are matched line by line stay on their lines. -/
theorem matchCallsByLine_gains {key : CallKey} {sources : List (Source.Handle .invocation)} :
    Gains (fun own other => ∃ a ∈ sources, own = a.ref ∧ OnOneLine setting state.file own other)
      state (state.matchCallsByLine setting compiled key sources) := by
  apply Gains.foldl
  rintro ⟨place, calls⟩ isGroup current _
  unfold matchCallOnLine
  split
  · next line call same =>
    obtain ⟨rfl, rfl⟩ := Prod.mk.inj same
    split
    · next only found =>
      have isCall : call ∈ [call] := List.mem_singleton_self call
      obtain ⟨isLined, onLine⟩ := (mem_group_iff isGroup).mp isCall
      have candidate : only ∈ current.openCallsOnLine setting compiled key line := by
        rw [found]
        exact List.mem_singleton_self only
      have there := (List.mem_filter.mp candidate).2
      simp only [Bool.and_eq_true, decide_eq_true_eq] at there
      apply Gains.record
      exact ⟨call, (List.mem_filter.mp isLined).1, rfl, line, onLine, there.1.1⟩
    · exact .refl current
  · exact .refl current

theorem settleRegrouped_settles (verified : setting.options.verifyOrdering = true)
    (formed : file.WellFormed) (same : file.Relinked state.file) (key : CallKey) :
    Settles setting file source (· = .call key) state
      (state.settleRegrouped setting compiled (key, callsTo file source key)) := by
  unfold settleRegrouped
  dsimp only
  split
  · apply Settles.pairZip verified same
    exact fun call isCall other => within_calls formed isCall other
  · refine settles_of_lines ((Gains.notice _ _).trans matchCallsByLine_gains) ?_
    rintro own other ⟨a, isCall, rfl, line, isLine, isCompiled⟩
    exact ⟨within_calls formed isCall other, line, (same.startLine _).symm.trans isLine, isCompiled⟩

theorem settleCalls_settles (verified : setting.options.verifyOrdering = true)
    (formed : file.WellFormed) (same : file.Relinked state.file) (key : CallKey) :
    Settles setting file source (· = .call key) state
      (state.settleCalls setting compiled (key, callsTo file source key)) := by
  have settles := @settleRegrouped_settles setting file (state.noteOverflow (setting.arities.regroup?
    setting.pool state.registry compiled key.1 key.2).isNone) source compiled verified formed same key
  exact ⟨(Gains.noteOverflow _).trans settles.gains, settles.inOrder⟩

theorem matchCalls_settles (verified : setting.options.verifyOrdering = true)
    (formed : file.WellFormed) (same : file.Relinked state.file) :
    Settles setting file source (·.kind = .invocation) state
      (state.matchCalls setting source compiled) := by
  -- Groups of equal sizes come first, all others after them: no group is settled in both halves.
  have grouped : state.sourceCalls source =
      groupBy (callKey file) (file.methodAt source).invocations := by
    obtain ⟨_, isFile⟩ := same
    rw [sourceCalls, isFile]
    rfl
  have oneKey {k next : CallKey} {groupKey : GroupKey} (isKey : groupKey = .call k)
      (isNext : groupKey = .call next) : k = next :=
    GroupKey.call.inj (isKey.symm.trans isNext)
  let groups := groupBy (callKey file) (file.methodAt source).invocations
  let isEven (group : CallKey × List (Source.Handle .invocation)) : Bool :=
    ((state.openCalls setting compiled).members group.1).length = group.2.length
  let pairEven (current : State) (group : CallKey × List (Source.Handle .invocation)) : State :=
    current.pairGroup setting (callGroup group.1)
      (zipRefs group.2 ((state.openCalls setting compiled).members group.1))
  let paired := (groups.filter isEven).foldl pairEven state
  have matched : state.matchCalls setting source compiled =
      (groups.filter fun group => !isEven group).foldl (settleCalls setting compiled) paired := by
    unfold matchCalls
    simp only [List.partition_eq_filter_filter, grouped]
    rfl
  have even : Settles setting file source
      (fun groupKey => ∃ group ∈ groups.filter isEven, groupKey = .call group.1) state paired := by
    apply Settles.foldl_groups (fun key => (· = .call key)) List.filter_sublist oneKey same
    intro key current _ currentSame
    apply Settles.pairZip verified currentSame
    exact fun call isCall other => within_calls formed isCall other
  have uneven : Settles setting file source
      (fun groupKey => ∃ group ∈ groups.filter fun group => !isEven group, groupKey = .call group.1)
      paired ((groups.filter fun group => !isEven group).foldl (settleCalls setting compiled) paired) :=
    Settles.foldl_groups (fun key => (· = .call key)) List.filter_sublist oneKey
      (same.trans even.gains.relinked)
      fun key current _ currentSame => settleCalls_settles verified formed currentSame key
  rw [matched]
  apply (even.trans ?apart uneven).mono
  case apart =>
    rintro groupKey ⟨⟨k, members⟩, isEvenGroup, isKey⟩ ⟨⟨next, others⟩, isUneven, isNext⟩
    obtain rfl : k = next := oneKey isKey isNext
    obtain ⟨isGroup, sized⟩ := List.mem_filter.mp isEvenGroup
    obtain ⟨isOther, unsized⟩ := List.mem_filter.mp isUneven
    obtain rfl := (mem_groupBy.mp isGroup).2
    obtain rfl := (mem_groupBy.mp isOther).2
    rw [sized] at unsized
    cases unsized
  rintro groupKey (⟨_, _, rfl⟩ | ⟨_, _, rfl⟩) <;> rfl

/-! ### Allocations -/

theorem within_allocations (formed : file.WellFormed) {key : String}
    {a : Source.Handle .allocation} (isAllocation : a ∈ allocationsOf file source key)
    (other : Compiled.Ref) : Within file source (· = .allocation key) a.ref other := by
  obtain ⟨listed, keyed⟩ := List.mem_filter.mp isAllocation
  apply Within.of_listed formed .allocation (List.mem_map_of_mem listed)
  intro groupKey grouped
  obtain rfl := of_decide_eq_true keyed
  obtain ⟨_, isKey⟩ := Option.ite_none_right_eq_some.mp grouped
  exact (Option.some.inj isKey).symm

theorem allocationsOnLine_gains {sources : List (Source.Handle .allocation)}
    {candidates : List (Compiled.Handle .allocation)} :
    Gains (fun own other => ∃ a ∈ sources, own = a.ref ∧ OnOneLine setting state.file own other)
      state (sources.foldl (matchAllocationOnLine setting sources candidates) state) := by
  apply Gains.foldl
  intro a isSource current gains
  unfold matchAllocationOnLine
  split
  · exact .refl current
  · next line isLine =>
    dsimp only
    split
    · next c found =>
      split
      · have chosen := List.find?_some found
        have there := of_decide_eq_true (Bool.and_eq_true_iff.mp chosen).2
        apply Gains.record
        exact ⟨a, isSource, rfl, line, (gains.relinked.startLine _).symm.trans isLine, there⟩
      · exact .refl current
    · exact .refl current

theorem matchAllocationGroup_settles (verified : setting.options.verifyOrdering = true)
    (formed : file.WellFormed) (same : file.Relinked state.file)
    (candidates : Grouping String (Compiled.Handle .allocation)) (key : String) :
    Settles setting file source (· = .allocation key) state
      (state.matchAllocationGroup setting candidates (key, allocationsOf file source key)) := by
  unfold matchAllocationGroup
  dsimp only
  split
  · apply Settles.pairZip verified same
    exact fun allocation isAllocation other => within_allocations formed isAllocation other
  · have byLine (noted : State) (unchanged : noted.file = state.file)
        (gains : ∀ permitted, Gains permitted state noted) :
        Settles setting file source (· = .allocation key) state
          (if setting.options.lossy then
            (allocationsOf file source key).foldl (matchAllocationOnLine setting
              (allocationsOf file source key) (candidates.members key)) noted
          else noted) := by
      split
      · refine settles_of_lines ((gains _).trans allocationsOnLine_gains) ?_
        rintro own other ⟨a, isSource, rfl, line, isLine, isCompiled⟩
        rw [unchanged, same.startLine] at isLine
        exact ⟨within_allocations formed isSource other, line, isLine, isCompiled⟩
      · exact Settles.of_ungrouped (gains fun _ _ => False) fun _ _ => False.elim
    apply byLine
    · split <;> rfl
    · intro permitted
      split
      · exact .refl state
      · exact .notice _ _

theorem matchAllocations_settles (verified : setting.options.verifyOrdering = true)
    (formed : file.WellFormed) (same : file.Relinked state.file) :
    Settles setting file source (·.kind = .allocation) state
      (state.matchAllocations setting source compiled) := by
  have grouped : state.sourceAllocations source =
      groupBy (fun allocation => allocationKey (file.allocationAt allocation))
        (file.methodAt source).allocations := by
    obtain ⟨_, isFile⟩ := same
    rw [sourceAllocations, isFile]
    rfl
  unfold matchAllocations
  rw [grouped]
  refine (Settles.foldl_groups (fun key => (· = .allocation key)) (.refl _) ?_ same
    fun key current _ currentSame => matchAllocationGroup_settles verified formed currentSame _ key
    ).mono ?_
  · intro key next groupKey isKey isNext
    exact GroupKey.allocation.inj (isKey.symm.trans isNext)
  · rintro groupKey ⟨_, _, rfl⟩
    rfl

/-! ### Field accesses -/

theorem within_accesses (formed : file.WellFormed) {name : String}
    {a : Source.Handle .fieldAccess} (isAccess : a ∈ accessesTo file source name)
    (other : Compiled.Ref) :
    Within file source (· = .access name (file.fieldAccessAt a).kind) a.ref other := by
  obtain ⟨isPlain, named⟩ := List.mem_filter.mp isAccess
  apply Within.of_listed formed .fieldAccess (List.mem_map_of_mem (List.mem_filter.mp isPlain).1)
  intro groupKey grouped
  obtain rfl := of_decide_eq_true named
  obtain ⟨_, isKey⟩ := Option.ite_none_right_eq_some.mp grouped
  exact (Option.some.inj isKey).symm

theorem matchAccessesOfKind_settles (verified : setting.options.verifyOrdering = true)
    (formed : file.WellFormed) (same : file.Relinked state.file) (name : String)
    (candidates : List (Compiled.Handle .fieldAccess)) (kind : AccessKind) :
    Settles setting file source (· = .access name kind) state
      (state.matchAccessesOfKind setting name (accessesTo file source name) candidates kind) := by
  unfold matchAccessesOfKind
  dsimp only
  split
  · exact .refl state
  · split
    · apply Settles.pairZip verified same
      intro access chosen other
      obtain ⟨isAccess, alike⟩ := List.mem_filter.mp chosen
      rw [same.fieldAccessAt, decide_eq_true_iff] at alike
      exact alike ▸ within_accesses formed isAccess other
    · exact .notice _ _

theorem matchAccessGroup_settles (verified : setting.options.verifyOrdering = true)
    (formed : file.WellFormed) (same : file.Relinked state.file)
    (candidates : Grouping String (Compiled.Handle .fieldAccess)) (name : String) :
    Settles setting file source (fun key => ∃ kind, key = .access name kind) state
      (state.matchAccessGroup setting candidates (name, accessesTo file source name)) := by
  unfold matchAccessGroup
  dsimp only
  split
  · split
    · exact .notice _ _
    · apply Settles.pairZip verified same
      intro access isAccess other
      exact (within_accesses formed isAccess other).mono fun _ isKey => ⟨_, isKey⟩
  · refine (Settles.foldl AccessKind.all ?apart same fun kind _ current currentSame =>
      matchAccessesOfKind_settles verified formed currentSame name _ kind).mono ?_
    case apart =>
      have apart : AccessKind.all.Nodup := by decide
      apply apart.imp
      rintro kind next different key rfl isNext
      exact different (GroupKey.access.inj isNext).2
    rintro key ⟨kind, _, isKey⟩
    exact ⟨kind, isKey⟩

theorem matchFieldAccesses_settles (verified : setting.options.verifyOrdering = true)
    (formed : file.WellFormed) (same : file.Relinked state.file) :
    Settles setting file source (·.kind = .fieldAccess) state
      (state.matchFieldAccesses setting source compiled) := by
  have grouped : state.sourceAccesses source =
      groupBy (fun access => (file.fieldAccessAt access).name)
        ((file.methodAt source).fieldAccesses.filter fun access =>
          (file.fieldAccessAt access).outerThis.isNone) := by
    obtain ⟨_, isFile⟩ := same
    rw [sourceAccesses, isFile]
    rfl
  unfold matchFieldAccesses
  rw [grouped]
  refine (Settles.foldl_groups (fun name key => ∃ kind, key = .access name kind) (.refl _) ?_ same
    fun name current _ currentSame => matchAccessGroup_settles verified formed currentSame _ name
    ).mono ?_
  · rintro name next groupKey ⟨_, isKey⟩ ⟨_, isNext⟩
    exact (GroupKey.access.inj (isKey.symm.trans isNext)).1
  · rintro groupKey ⟨_, _, _, rfl⟩
    rfl

/-! ### Casts and method references -/

theorem matchCasts_settles (verified : setting.options.verifyOrdering = true)
    (formed : file.WellFormed) (same : file.Relinked state.file) :
    Settles setting file source (·.kind = .cast) state
      (state.matchCasts setting source compiled) := by
  unfold matchCasts
  dsimp only
  rw [same.methodAt]
  split
  · exact .refl state
  · split
    · apply Settles.pairZip verified same
      intro conversion listed other
      apply Within.of_listed formed .cast (List.mem_map_of_mem listed)
      exact fun key grouped => kind_of_groupOf grouped
    · exact .notice _ _

theorem matchReferenceGroup_settles (verified : setting.options.verifyOrdering = true)
    (formed : file.WellFormed) (same : file.Relinked state.file)
    (candidates : Grouping String (Compiled.Handle .methodRef)) (name : String) :
    Settles setting file source (· = .reference name) state
      (state.matchReferenceGroup setting candidates (name, referencesTo file source name)) := by
  unfold matchReferenceGroup
  dsimp only
  split
  · apply Settles.pairZip verified same
    intro reference isReference other
    obtain ⟨listed, named⟩ := List.mem_filter.mp isReference
    apply Within.of_listed formed .methodRef (List.mem_map_of_mem listed)
    intro groupKey grouped
    obtain rfl := of_decide_eq_true named
    exact (Option.some.inj grouped).symm
  · exact .notice _ _

theorem matchReferences_settles (verified : setting.options.verifyOrdering = true)
    (formed : file.WellFormed) (same : file.Relinked state.file) :
    Settles setting file source (·.kind = .methodRef) state
      (state.matchReferences setting source compiled) := by
  have grouped : state.sourceReferences source =
      groupBy (fun reference => (file.methodRefAt reference).name)
        (file.methodAt source).methodRefs := by
    obtain ⟨_, isFile⟩ := same
    rw [sourceReferences, isFile]
    rfl
  unfold matchReferences
  rw [grouped]
  refine (Settles.foldl_groups (fun name => (· = .reference name)) (.refl _) ?_ same
    fun name current _ currentSame => matchReferenceGroup_settles verified formed currentSame _ name
    ).mono ?_
  · intro name next groupKey isKey isNext
    exact GroupKey.reference.inj (isKey.symm.trans isNext)
  · rintro groupKey ⟨_, _, rfl⟩
    rfl

end State

/-! ### All passes over two bodies -/

namespace BodyPass

variable {setting : Setting} {file : Source.File} {state : State} {source : Source.Handle .method}
  {compiled : Compiled.Handle .method}

/-- A pass matches elements of its kind, each group in order. -/
theorem settles (verified : setting.options.verifyOrdering = true) (formed : file.WellFormed)
    (same : file.Relinked state.file) (pass : BodyPass) :
    Settles setting file source (·.kind = pass.kind) state
      (pass.run setting source compiled state) := by
  cases pass with
  | vars => exact State.matchVariables_settles
  | calls =>
      have aliases : Settles setting file source (fun _ => False)
          (state.matchCalls setting source compiled)
          ((state.matchCalls setting source compiled).aliasCallBases setting source compiled) :=
        .of_ungrouped (LinkSteps.gains State.aliasCallBases_links) fun _ _ => False.elim
      apply ((State.matchCalls_settles verified formed same).trans (fun _ _ => id) aliases).mono
      exact fun key isCall => isCall.resolve_right id
  | allocations => exact State.matchAllocations_settles verified formed same
  | accesses => exact State.matchFieldAccesses_settles verified formed same
  | casts => exact State.matchCasts_settles verified formed same
  | references => exact State.matchReferences_settles verified formed same

end BodyPass

/-- All that is matched inside two methods, but for lambdas, is in order group by group. -/
theorem State.matchStatements_settles {setting : Setting} {state : State}
    {source : Source.Handle .method} {compiled : Compiled.Handle .method}
    (verified : setting.options.verifyOrdering = true) (formed : state.file.WellFormed) :
    Settles setting state.file source (fun _ => True) (state.addPair (source, compiled))
      (state.matchStatements setting source compiled) := by
  have same : state.file.Relinked (state.addPair (source, compiled)).file := .refl _
  rw [matchStatements_eq]
  refine (Settles.foldl BodyPass.all ?apart same fun pass _ current currentSame =>
    BodyPass.settles verified formed currentSame pass).mono fun _ _ => trivial
  have apart : BodyPass.all.Pairwise fun pass next => pass.kind ≠ next.kind := by decide
  apply apart.imp
  intro pass next different key isKind isNext
  exact different (isKind.symm.trans isNext)

/-! ### What no single body settles -/

namespace State

variable {setting : Setting} {state : State} {pair : MethodPair}

/-- Only reads of enclosing instances are matched. -/
theorem matchOuterThis_gains :
    Gains (fun own _ => ∃ access : Source.Handle .fieldAccess, own = access.ref ∧
      (state.file.fieldAccessAt access).outerThis.isSome = true) state
      (state.matchOuterThis setting pair) := by
  apply Gains.foldl
  intro access member current _
  obtain ⟨_, _, qualified⟩ := mem_openOuterThis member
  unfold matchOuterThisAccess
  split
  · exact .record ⟨access.1, rfl, by rw [qualified]; rfl⟩
  · exact .refl current

/-- Only allocations are matched, and only with calls. -/
theorem matchReflectiveArrays_gains :
    Gains (fun own other => own.kind = .allocation ∧ other.kind = .invocation) state
      (state.matchReflectiveArrays setting pair) := by
  unfold matchReflectiveArrays
  dsimp only
  split
  · apply (Gains.pairGroup _ _).mono
    rintro own other ⟨member, _⟩
    obtain ⟨a, c, _, isPair⟩ := mem_zipRefs.mp member
    obtain ⟨rfl, rfl⟩ := Prod.mk.inj isPair
    exact ⟨rfl, rfl⟩
  · exact .refl state

end State

end Correlate.Matching
