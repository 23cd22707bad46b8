/-
Module: Correlate.Proofs.Matching.Calls
Purpose: What matching the variables and calls of two methods comes to.
Main exports: State.matchVariables_links, State.matchCalls_links, State.aliasCallBases_links
-/
import Correlate.Matching.Call
import Correlate.Proofs.ArityTables
import Correlate.Proofs.Matching.Fit
import Correlate.Proofs.Matching.Groups

namespace Correlate.Matching.State

variable {setting : Setting} {state : State} {source : Source.Handle .method}
  {compiled : Compiled.Handle .method}

/-! ### Variables -/

theorem fst_variablePairs_sublist :
    ((state.variablePairs setting source compiled).map Prod.fst).Sublist
      ((state.file.methodAt source).receiver.toList ++ (state.file.methodAt source).params) := by
  unfold variablePairs
  rw [List.map_append]
  apply (fst_zip_sublist _ _).append
  split
  · exact fst_zip_sublist _ _
  · exact List.nil_sublist _

theorem snd_variablePairs_sublist :
    ((state.variablePairs setting source compiled).map Prod.snd).Sublist
      ((setting.pool.methodAt compiled).receiver.toList ++
        (setting.pool.methodAt compiled).params) := by
  unfold variablePairs
  rw [List.map_append]
  apply (snd_zip_sublist _ _).append
  split
  · exact (snd_zip_sublist _ _).trans (List.drop_sublist _ _)
  · exact List.nil_sublist _

theorem variablePairs_fit {pair : Source.Handle .variable × Compiled.Handle .variable}
    (member : pair ∈ state.variablePairs setting source compiled) :
    StatementFits setting state.file source compiled pair.1.ref pair.2.ref := by
  unfold variablePairs at member
  rcases List.mem_append.mp member with receivers | params
  · have both := List.of_mem_zip receivers
    exact .receiver (Option.mem_toList.mp both.1) (Option.mem_toList.mp both.2)
  · split at params
    · next sized =>
      obtain ⟨i, atPlace⟩ := List.mem_iff_getElem?.mp params
      obtain ⟨isParam, isCompiled⟩ := List.getElem?_zip_eq_some.mp atPlace
      rw [List.getElem?_drop, Nat.add_comm] at isCompiled
      exact .param isParam isCompiled (Nat.add_sub_cancel' sized).symm
    · exact absurd params List.not_mem_nil

/-- The receivers and the parameters of two methods are matched, captured values left out. -/
theorem matchVariables_links (formed : state.file.WellFormed) (poolFormed : setting.pool.WellFormed)
    (unlinked : ∀ own ∈ (state.file.methodAt source).receiver.toList ++
      (state.file.methodAt source).params, state.file.isLinked own.ref = false)
    (opened : ∀ other ∈ (setting.pool.methodAt compiled).receiver.toList ++
      (setting.pool.methodAt compiled).params, state.isConsumed other.ref = false) :
    let final := state.matchVariables setting source compiled
    LinkSteps setting (FitsOfKind setting state.file source compiled .variable .variable)
        state final ∧
      ∀ pair ∈ state.variablePairs setting source compiled,
        final.file.link? pair.1.ref = some ⟨pair.2.ref, setting.pool.elementId pair.2.ref⟩ := by
  have sources_nodup := (formed.variables_nodup source).sublist
    (@fst_variablePairs_sublist setting state source compiled)
  have compiled_nodup := ((poolFormed.list_nodup .slot compiled).of_map _).sublist
    (@snd_variablePairs_sublist setting state source compiled)
  have pass := @foldl_links _ setting state (matchVariable setting)
    (fun pair own other => own = pair.1.ref ∧ other = pair.2.ref)
    (fun pair current => current.file.isLinked pair.1.ref = false ∧
      current.isConsumed pair.2.ref = false)
    (fun pair current => current.file.link? pair.1.ref =
      some ⟨pair.2.ref, setting.pool.elementId pair.2.ref⟩)
    (state.variablePairs setting source compiled)
  obtain ⟨steps, linked⟩ := by
    refine pass ?advance ?kept ?lasting ?ready
    case advance =>
      rintro ⟨own, other⟩ _ current _ clear
      have accepted := accepts_iff.mpr clear.symm
      unfold matchVariable
      dsimp only
      rw [if_pos accepted]
      refine ⟨.head (.accept ⟨rfl, rfl⟩ accepted) (.single (.aliased _ _)), ?_⟩
      exact (link_record accepted own.ref).trans (if_pos rfl)
    case kept =>
      refine ((List.pairwise_map.mp sources_nodup).and (List.pairwise_map.mp compiled_nodup)).imp
        fun {pair next} apart current later steps clear => ⟨?_, ?_⟩
      · exact steps.unlinked clear.1 fun _ same => apart.1 (ref_injective same.1.symm)
      · exact steps.opened clear.2 fun _ same => apart.2 (compiledRef_injective same.2.symm)
    case lasting => exact fun _ _ _ _ steps => steps.gains.link_kept _ _
    case ready =>
      refine fun pair member => ⟨unlinked pair.1 ?_, opened pair.2 ?_⟩
      · exact fst_variablePairs_sublist.subset (List.mem_map_of_mem member)
      · exact snd_variablePairs_sublist.subset (List.mem_map_of_mem member)
  refine ⟨steps.mono fun own other permission => ?_, linked⟩
  obtain ⟨pair, member, rfl, rfl⟩ := permission
  exact ⟨rfl, rfl, variablePairs_fit member⟩

/-! ### Calls -/

/-- What a source call is grouped by. -/
def callKey (file : Source.File) (call : Source.Handle .invocation) : CallKey :=
  ((file.invocationAt call).name, (file.invocationAt call).arity)

/-- What a compiled call is grouped by. -/
def compiledCallKey (pool : Compiled.Pool) (call : Compiled.Handle .invocation) : CallKey :=
  ((pool.invocationAt call).name, (pool.invocationAt call).arity)

/-- The source calls of a method with a key. -/
def callsTo (file : Source.File) (source : Source.Handle .method) (key : CallKey) :
    List (Source.Handle .invocation) :=
  (file.methodAt source).invocations.filter (callKey file · = key)

/-- The compiled calls of a method with a key. -/
def compiledCallsTo (pool : Compiled.Pool) (compiled : Compiled.Handle .method) (key : CallKey) :
    List (Compiled.Handle .invocation) :=
  (pool.methodAt compiled).invocations.filter (compiledCallKey pool · = key)

/-- A compiled call may be matched with source calls of a key. -/
def MayCall (setting : Setting) (compiled : Compiled.Handle .method) (key : CallKey)
    (call : Compiled.Handle .invocation) : Prop :=
  call ∈ (setting.pool.methodAt compiled).invocations ∧
    (setting.pool.invocationAt call).name = key.1 ∧
    ((setting.pool.invocationAt call).arity = key.2 ∨
      setting.arities.isPlausible (setting.pool.invocationAt call).namingId
        (setting.pool.invocationAt call).arity key.2 = true)

/-- Line by line, calls of a group are matched with open compiled calls of the same key. -/
theorem matchCallsByLine_links {key : CallKey} {sources : List (Source.Handle .invocation)} :
    LinkSteps setting
      (fun own other => ∃ a ∈ sources, ∃ c, MayCall setting compiled key c ∧
        own = a.ref ∧ other = c.ref)
      state (state.matchCallsByLine setting compiled key sources) := by
  let line (call : Source.Handle .invocation) : Option Nat := state.file.startLine? call.ref
  let lined := sources.filter fun call => (line call).isSome && !state.file.isLinked call.ref
  have pass := @foldl_links _ setting state (matchCallOnLine setting compiled key)
    (fun group own other => ∃ a ∈ group.2, a ∈ lined ∧ line a = group.1 ∧
      ∃ c, MayCall setting compiled key c ∧ own = a.ref ∧ other = c.ref)
    (fun group current => ∀ a ∈ group.2, current.file.isLinked a.ref = false)
    (fun _ _ => True) (groupBy line lined)
  refine (pass ?advance ?kept (fun _ _ _ _ _ _ => trivial) ?ready).1.mono ?weaker
  case weaker =>
    rintro own other ⟨_, _, a, _, isLined, _, c, permission⟩
    exact ⟨a, (List.mem_filter.mp isLined).1, c, permission⟩
  case ready =>
    rintro ⟨place, calls⟩ member a isCall
    obtain rfl := (mem_groupBy.mp member).2
    have unlinked := (List.mem_filter.mp (List.mem_filter.mp isCall).1).2
    simpa using (Bool.and_eq_true_iff.mp unlinked).2
  case kept =>
    refine (groupBy_keys_apart line lined).imp_of_mem
      fun {group next} _ isGroup apart current later steps clear a isCall => ?_
    apply steps.unlinked (clear a isCall)
    rintro _ ⟨b, _, _, onLine, _, _, same, _⟩
    obtain rfl := ref_injective same
    rw [(mem_groupBy.mp isGroup).2] at isCall
    exact apart (onLine.symm.trans (of_decide_eq_true (List.mem_filter.mp isCall).2))
  case advance =>
    rintro ⟨place, calls⟩ member current _ clear
    refine ⟨?_, trivial⟩
    unfold matchCallOnLine
    split
    · next number call same =>
      obtain ⟨rfl, rfl⟩ := Prod.mk.inj same
      split
      · next only found =>
        have candidate : only ∈ current.openCallsOnLine setting compiled key number := by
          rw [found]; exact List.mem_singleton_self only
        unfold openCallsOnLine at candidate
        simp only [List.mem_filter, openOf, Bool.and_eq_true, decide_eq_true_eq,
          Bool.not_eq_true'] at candidate
        obtain ⟨⟨listed, opened⟩, ⟨_, named⟩, sized⟩ := candidate
        have isLined := (mem_groupBy.mp member).2
        have inGroup : call ∈ lined.filter (line · = some number) := by
          rw [← isLined]; exact List.mem_singleton_self call
        refine .single (.accept ?_ (accepts_iff.mpr ⟨opened, clear call ?_⟩))
        · exact ⟨call, List.mem_singleton_self call, (List.mem_filter.mp inGroup).1,
            of_decide_eq_true (List.mem_filter.mp inGroup).2, only, ⟨listed, named, .inl sized⟩,
            rfl, rfl⟩
        · exact List.mem_singleton_self call
      · exact .refl
    · exact .refl

/-- A group is settled by the open calls that fit, or with a note. -/
theorem settleRegrouped_links (poolFormed : setting.pool.WellFormed) {key : CallKey}
    {sources : List (Source.Handle .invocation)} (sources_nodup : sources.Nodup)
    (unlinked : ∀ own ∈ sources, state.file.isLinked own.ref = false) :
    let final := state.settleRegrouped setting compiled (key, sources)
    LinkSteps setting
        (fun own other => ∃ a ∈ sources, ∃ c, MayCall setting compiled key c ∧
          own = a.ref ∧ other = c.ref) state final ∧
      ∀ own ∈ sources, final.Settled own.ref := by
  let regrouped := setting.arities.regroup setting.pool state.registry compiled key.1 key.2
  have regrouped_nodup : regrouped.Nodup :=
    ((poolFormed.list_nodup .invocation compiled).of_map _).filter _
  have mem_regrouped {call : Compiled.Handle .invocation} (member : call ∈ regrouped) :
      MayCall setting compiled key call ∧ state.isConsumed call.ref = false := by
    simp only [regrouped, ArityTable.regroup, List.mem_filter, Bool.and_eq_true,
      Bool.or_eq_true, decide_eq_true_eq, beq_iff_eq, Bool.not_eq_true'] at member
    obtain ⟨listed, ⟨opened, named⟩, sized⟩ := member
    exact ⟨⟨listed, named, sized⟩, opened⟩
  dsimp only
  unfold settleRegrouped
  dsimp only
  split
  · next sized =>
    obtain ⟨steps, _, settled⟩ := pairZip_links (callGroup key) sized.symm sources_nodup
      regrouped_nodup unlinked fun other member => (mem_regrouped member).2
    refine ⟨steps.mono fun own other permission => ?_, settled⟩
    obtain ⟨a, isSource, c, isCompiled, same⟩ := permission.between
    exact ⟨a, isSource, c, (mem_regrouped isCompiled).1, same⟩
  · have byLine (line : Option Nat) := @matchCallsByLine_links setting
      (state.notice line (.callCount (callGroup key) sources.length regrouped.length)) compiled key
      sources
    refine ⟨.head (.note _ ?_) (byLine _), fun _ _ => .inr ?_⟩
    · exact nofun
    · exact (byLine _).noticed (noticed_notice _ _)

/-- A group of another size is settled: by the calls that variable arity adds, or with a note. -/
theorem settleCalls_links {file : Source.File} (formed : file.WellFormed)
    (poolFormed : setting.pool.WellFormed) (same : file.Relinked state.file) {key : CallKey}
    (present : (key, callsTo file source key) ∈
      groupBy (callKey file) (file.methodAt source).invocations)
    (unlinked : ∀ own ∈ callsTo file source key, state.file.isLinked own.ref = false) :
    let final := state.settleCalls setting compiled (key, callsTo file source key)
    LinkSteps setting
        (fun own other => ∃ a ∈ callsTo file source key, ∃ c, MayCall setting compiled key c ∧
          own = a.ref ∧ other = c.ref) state final ∧
      ∀ own ∈ callsTo file source key, final.Settled own.ref := by
  let answer := setting.arities.regroup? setting.pool state.registry compiled key.1 key.2
  have asked (exceeds : answer.isNone = true) : MayExceed setting.pool setting.arities state.file := by
    obtain ⟨own, listed, keyed⟩ := (mem_groupBy.mp present).1
    have sameCall := same.invocationAt own
    obtain rfl : callKey state.file own = key := by rw [callKey, sameCall]; exact keyed
    obtain ⟨other, _, _, named, differs, unanswered⟩ :=
      ArityTable.regroup?_eq_none_iff.mp (Option.isNone_iff_eq_none.mp exceeds)
    have known := (formed.owner_of_listed .invocation (List.mem_map_of_mem listed)).1
    rw [← same.count] at known
    exact ⟨own, other, known, named, differs, unanswered⟩
  obtain ⟨steps, settled⟩ := @settleRegrouped_links setting (state.noteOverflow answer.isNone) compiled
    poolFormed key _ (((formed.list_nodup .invocation source).of_map _).filter _) unlinked
  exact ⟨.head (.compared asked) steps, settled⟩

/-- The calls of a group are paired with the compiled calls of its key. -/
def pairCalls (setting : Setting) (compiled : Compiled.Handle .method) (state : State)
    (group : CallKey × List (Source.Handle .invocation)) : State :=
  state.pairGroup setting (callGroup group.1)
    (zipRefs group.2 (compiledCallsTo setting.pool compiled group.1))

/-- Groups of the same size take the compiled calls of their keys, which no other group touches. -/
theorem foldl_pairCalls_links (formed : state.file.WellFormed) (poolFormed : setting.pool.WellFormed)
    (unlinked : ∀ own ∈ (state.file.methodAt source).invocations,
      state.file.isLinked own.ref = false)
    (opened : ∀ other ∈ (setting.pool.methodAt compiled).invocations,
      state.isConsumed other.ref = false)
    {groups : Grouping CallKey (Source.Handle .invocation)}
    (chosen : groups.Sublist
      (groupBy (callKey state.file) (state.file.methodAt source).invocations))
    (even : ∀ group ∈ groups,
      (compiledCallsTo setting.pool compiled group.1).length = group.2.length) :
    let final := groups.foldl (pairCalls setting compiled) state
    LinkSteps setting (fun own other => ∃ key, (key, callsTo state.file source key) ∈ groups ∧
        Between (callsTo state.file source key) (compiledCallsTo setting.pool compiled key) own other)
        state final ∧
      ∀ key, (key, callsTo state.file source key) ∈ groups →
        GroupSettled setting final (callsTo state.file source key)
          (compiledCallsTo setting.pool compiled key) := by
  have sources_nodup := (formed.list_nodup .invocation source).of_map _
  have compiled_nodup := (poolFormed.list_nodup .invocation compiled).of_map _
  have pass := @foldl_groups setting .invocation .invocation
    (state.file.methodAt source).invocations (setting.pool.methodAt compiled).invocations _ _ state
    (callKey state.file) (compiledCallKey setting.pool)
    (pairCalls setting compiled)
    (fun key => Between (callsTo state.file source key) (compiledCallsTo setting.pool compiled key))
    (fun key current => GroupSettled setting current (callsTo state.file source key)
      (compiledCallsTo setting.pool compiled key))
    groups chosen (fun _ _ _ => id)
  refine pass ?advance (fun _ _ _ steps => .lasting steps) unlinked opened
  case advance =>
    intro key current member _ groupUnlinked groupOpened
    obtain ⟨steps, settled⟩ := pairZip_links (callGroup key) (even _ member).symm
      (sources_nodup.filter _) (compiled_nodup.filter _) groupUnlinked groupOpened
    exact ⟨steps.mono fun _ _ => Zipped.between, settled⟩

/-- Groups of other sizes look for what is open when their turn comes. -/
theorem foldl_settleCalls_links {file : Source.File} (formed : file.WellFormed)
    (poolFormed : setting.pool.WellFormed) (same : file.Relinked state.file)
    {groups : Grouping CallKey (Source.Handle .invocation)}
    (chosen : groups.Sublist (groupBy (callKey file) (file.methodAt source).invocations))
    (unlinked : ∀ group ∈ groups, ∀ own ∈ callsTo file source group.1,
      state.file.isLinked own.ref = false) :
    let final := groups.foldl (settleCalls setting compiled) state
    LinkSteps setting (fun own other => ∃ group ∈ groups, ∃ a ∈ callsTo file source group.1,
        ∃ c, MayCall setting compiled group.1 c ∧ own = a.ref ∧ other = c.ref) state final ∧
      ∀ group ∈ groups, ∀ own ∈ callsTo file source group.1, final.Settled own.ref := by
  have pass := @foldl_links _ setting state (settleCalls setting compiled)
    (fun group own other => ∃ a ∈ callsTo file source group.1,
      ∃ c, MayCall setting compiled group.1 c ∧ own = a.ref ∧ other = c.ref)
    (fun group current => ∀ a ∈ callsTo file source group.1, current.file.isLinked a.ref = false)
    (fun group current => ∀ a ∈ callsTo file source group.1, current.Settled a.ref)
    groups
  refine pass ?advance ?kept ?lasting unlinked
  case advance =>
    rintro ⟨key, calls⟩ member current before clear
    have present := chosen.subset member
    obtain rfl := (mem_groupBy.mp present).2
    exact settleCalls_links formed poolFormed (same.trans before.gains.relinked) present clear
  case kept =>
    refine ((groupBy_keys_apart _ _).sublist chosen).imp
      fun {group next} apart current later steps clear a isCall => ?_
    apply steps.unlinked (clear a isCall)
    rintro _ ⟨b, isOther, _, _, same, _⟩
    obtain rfl := ref_injective same
    exact apart ((of_decide_eq_true (List.mem_filter.mp isOther).2).symm.trans
      (of_decide_eq_true (List.mem_filter.mp isCall).2))
  case lasting =>
    intro group _ current later steps settled a isCall
    exact steps.settled (settled a isCall)

/-- The calls of a group are as many as the compiled calls of its key. -/
def isEvenGroup (pool : Compiled.Pool) (compiled : Compiled.Handle .method)
    (group : CallKey × List (Source.Handle .invocation)) : Bool :=
  (compiledCallsTo pool compiled group.1).length = group.2.length

/-- Where all compiled calls are open, the groups of the same size come first and then the others. -/
theorem matchCalls_eq (opened : ∀ other ∈ (setting.pool.methodAt compiled).invocations,
      state.isConsumed other.ref = false) :
    let groups := groupBy (callKey state.file) (state.file.methodAt source).invocations
    state.matchCalls setting source compiled =
      (groups.filter fun group => !isEvenGroup setting.pool compiled group).foldl
        (settleCalls setting compiled)
        ((groups.filter (isEvenGroup setting.pool compiled)).foldl (pairCalls setting compiled)
          state) := by
  have candidates (key : CallKey) : (state.openCalls setting compiled).members key =
      compiledCallsTo setting.pool compiled key := by
    rw [openCalls, openOf_eq opened, members_groupBy]
    rfl
  unfold matchCalls
  simp only [List.partition_eq_filter_filter, candidates]
  rfl

/-- A call of a group that waits has another key than the calls that are paired. -/
theorem unlinked_of_uneven {paired : State}
    (unlinked : ∀ own ∈ (state.file.methodAt source).invocations,
      state.file.isLinked own.ref = false)
    (steps : LinkSteps setting (fun own other => ∃ key, (key, callsTo state.file source key) ∈
        (groupBy (callKey state.file) (state.file.methodAt source).invocations).filter
          (isEvenGroup setting.pool compiled) ∧
        Between (callsTo state.file source key) (compiledCallsTo setting.pool compiled key) own other)
      state paired) :
    ∀ group ∈ (groupBy (callKey state.file) (state.file.methodAt source).invocations).filter
        fun group => !isEvenGroup setting.pool compiled group,
      ∀ own ∈ callsTo state.file source group.1, paired.file.isLinked own.ref = false := by
  rintro ⟨key, calls⟩ member a isCall
  obtain ⟨isGroup, uneven⟩ := List.mem_filter.mp member
  obtain ⟨listed, keyed⟩ := List.mem_filter.mp isCall
  apply steps.unlinked (unlinked a listed)
  rintro _ ⟨other, isEven, b, isOther, _, _, same, _⟩
  obtain rfl := ref_injective same
  obtain rfl := of_decide_eq_true keyed
  obtain rfl := of_decide_eq_true (List.mem_filter.mp isOther).2
  obtain rfl : calls = callsTo state.file source (callKey state.file a) :=
    (mem_groupBy.mp isGroup).2
  rw [(List.mem_filter.mp isEven).2] at uneven
  cases uneven

/-- The calls of equal groups are paired by position, and every call is matched or something was
noted. -/
theorem matchCalls_links (formed : state.file.WellFormed) (poolFormed : setting.pool.WellFormed)
    (unlinked : ∀ own ∈ (state.file.methodAt source).invocations,
      state.file.isLinked own.ref = false)
    (opened : ∀ other ∈ (setting.pool.methodAt compiled).invocations,
      state.isConsumed other.ref = false) :
    let final := state.matchCalls setting source compiled
    LinkSteps setting (FitsOfKind setting state.file source compiled .invocation .invocation)
        state final ∧
      ∀ key, GroupSettled setting final (callsTo state.file source key)
        (compiledCallsTo setting.pool compiled key) := by
  have callFits {key : CallKey} {a : Source.Handle .invocation} {c : Compiled.Handle .invocation}
      (isSource : a ∈ callsTo state.file source key) (may : MayCall setting compiled key c) :
      FitsOfKind setting state.file source compiled .invocation .invocation a.ref c.ref := by
    obtain ⟨listed, keyed⟩ := List.mem_filter.mp isSource
    obtain rfl := of_decide_eq_true keyed
    exact ⟨rfl, rfl, .call listed may.1 may.2.1 may.2.2⟩
  let groups := groupBy (callKey state.file) (state.file.methodAt source).invocations
  let isEven := isEvenGroup setting.pool compiled
  let paired := (groups.filter isEven).foldl (pairCalls setting compiled) state
  obtain ⟨evenSteps, evenEnds⟩ :=
    @foldl_pairCalls_links setting state source compiled formed poolFormed unlinked opened
      (groups.filter isEven) List.filter_sublist
      fun group member => of_decide_eq_true (List.mem_filter.mp member).2
  obtain ⟨unevenSteps, unevenEnds⟩ :=
    @foldl_settleCalls_links setting paired source compiled state.file formed poolFormed
      evenSteps.gains.relinked (groups.filter fun group => !isEven group) List.filter_sublist
      (unlinked_of_uneven unlinked evenSteps)
  dsimp only
  rw [matchCalls_eq opened]
  constructor
  · refine (evenSteps.mono fun own other permission => ?_).trans
      (unevenSteps.mono fun own other permission => ?_)
    · obtain ⟨key, _, a, isSource, c, isCompiled, rfl, rfl⟩ := permission
      obtain ⟨compiledListed, keyed⟩ := List.mem_filter.mp isCompiled
      obtain rfl := of_decide_eq_true keyed
      exact callFits isSource ⟨compiledListed, rfl, .inl rfl⟩
    · obtain ⟨group, _, a, isSource, c, may, rfl, rfl⟩ := permission
      exact callFits isSource may
  · refine fun key => GroupSettled.of_present fun own member => ?_
    obtain ⟨listed, keyed⟩ := List.mem_filter.mp member
    obtain rfl := of_decide_eq_true keyed
    have isGroup : (callKey state.file own, callsTo state.file source (callKey state.file own)) ∈
        groups := mem_groupBy_of_mem listed
    cases even : isEven (callKey state.file own, callsTo state.file source (callKey state.file own))
    case true =>
      exact (evenEnds _ (List.mem_filter.mpr ⟨isGroup, even⟩)).lasting unevenSteps
    case false =>
      refine ⟨fun sized => absurd sized.symm (of_decide_eq_false even), ?_⟩
      exact unevenEnds _ (List.mem_filter.mpr ⟨isGroup, by rw [even]; rfl⟩)

/-! ### Aliases -/

theorem aliasCallBases_links {permitted : Source.Ref → Compiled.Ref → Prop} :
    LinkSteps setting permitted state (state.aliasCallBases setting source compiled) := by
  apply foldl_each _
  intro call _ current _
  unfold aliasCallBase
  split
  · split
    · exact .single (.aliased _ _)
    · exact .refl
  · exact .refl

end Correlate.Matching.State
