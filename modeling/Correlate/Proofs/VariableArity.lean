/-
Module: Correlate.Proofs.VariableArity
Purpose: When the only call of a name is matched with the only compiled call of that name.
Main exports: State.callsNamed, State.compiledCallsNamed, ArityTable.Explains,
  State.OnlyCallSettled, run_onlyCall, run?_eq_none_of_onlyCall
-/
import Correlate.Proofs.ArityTables
import Correlate.Proofs.Compatibility
import Correlate.Proofs.Matching.Additions
import Correlate.Proofs.Position

namespace Correlate.Matching

/-!
A source method calls a name once, and so does the compiled method it is matched to.  Nothing else can
come between these two calls, so the numbers of their arguments and the table of variable arities
decide alone whether they are matched.
-/

/-! ### The only call of a name -/

/-- The order of lines is no obstacle to a single pair. -/
theorem inOrder_singleton {setting : Setting} {file : Source.File} {sourceKind : Source.Kind}
    {compiledKind : Compiled.Kind} (own : Source.Handle sourceKind)
    (other : Compiled.Handle compiledKind) : InOrder setting file [own] [other] := by
  refine .inr ?_
  simp only [State.zipRefs, pairLines, List.map_cons, List.map_nil, List.zip_cons_cons,
    List.zip_nil_right]
  cases file.startLine? own.ref <;> cases setting.pool.elementLine other.ref <;> rfl

theorem filter_of_only {α : Type} {items : List α} {narrow wide : α → Bool} {only : α}
    (found : items.filter wide = [only])
    (narrower : ∀ item ∈ items, narrow item = true → wide item = true) :
    items.filter narrow = [only].filter narrow := by
  rw [← found, List.filter_filter]
  refine List.filter_congr fun item member => ?_
  cases isNarrow : narrow item with
  | false => rfl
  | true => rw [narrower item member isNarrow]; rfl

namespace State

variable {setting : Setting} {state : State} {source : Source.Handle .method}
  {compiled : Compiled.Handle .method} {name : String} {call : Source.Handle .invocation}
  {other : Compiled.Handle .invocation}

/-- The source calls of a method with a name. -/
def callsNamed (file : Source.File) (source : Source.Handle .method) (name : String) :
    List (Source.Handle .invocation) :=
  (file.methodAt source).invocations.filter fun call => (file.invocationAt call).name = name

/-- The compiled calls of a method with a name. -/
def compiledCallsNamed (pool : Compiled.Pool) (compiled : Compiled.Handle .method) (name : String) :
    List (Compiled.Handle .invocation) :=
  (pool.methodAt compiled).invocations.filter fun call => (pool.invocationAt call).name = name

/-- No other call has the name. -/
theorem listed_iff_of_only {file : Source.File} (only : callsNamed file source name = [call])
    {own : Source.Handle .invocation} :
    own ∈ (file.methodAt source).invocations ∧ (file.invocationAt own).name = name ↔ own = call := by
  rw [← @List.mem_singleton _ own, ← only, callsNamed, List.mem_filter, decide_eq_true_iff]

theorem compiledListed_iff_of_only
    (only : compiledCallsNamed setting.pool compiled name = [other])
    {found : Compiled.Handle .invocation} :
    found ∈ (setting.pool.methodAt compiled).invocations ∧
      (setting.pool.invocationAt found).name = name ↔ found = other := by
  rw [← @List.mem_singleton _ found, ← only, compiledCallsNamed, List.mem_filter, decide_eq_true_iff]

/-- The only call of its name is alone in its group. -/
theorem callsTo_of_only {file : Source.File} (only : callsNamed file source name = [call]) :
    callsTo file source (callKey file call) = [call] := by
  rw [callsTo, filter_of_only only]
  · simp
  · intro own _ keyed
    have same := congrArg Prod.fst (of_decide_eq_true keyed)
    exact decide_eq_true (same.trans ((listed_iff_of_only only).mpr rfl).2)

/-- What the only call of a name comes to: it takes the only compiled call of that name, if this fits,
and it is noted where the numbers of their arguments cannot be compared. -/
structure OnlyCallSettled (setting : Setting) (file : Source.File)
    (call : Source.Handle .invocation) (other : Compiled.Handle .invocation) (state : State) :
    Prop where
  linked : ((setting.pool.invocationAt other).arity = (file.invocationAt call).arity ∨
      setting.arities.isPlausible (setting.pool.invocationAt other).namingId
        (setting.pool.invocationAt other).arity (file.invocationAt call).arity = true) →
    state.file.link? call.ref = some ⟨other.ref, setting.pool.elementId other.ref⟩
  noted : Exceeds setting.pool setting.arities file call other → state.overflow = true

theorem OnlyCallSettled.mono {file : Source.File} {later : State}
    (settled : OnlyCallSettled setting file call other state)
    (links : ∀ element link, state.file.link? element = some link →
      later.file.link? element = some link)
    (overflow : state.overflow = true → later.overflow = true) :
    OnlyCallSettled setting file call other later where
  linked sized := links _ _ (settled.linked sized)
  noted exceeds := overflow (settled.noted exceeds)

/-- All that matters of the file is the call. -/
theorem OnlyCallSettled.of_same {file later : Source.File}
    (settled : OnlyCallSettled setting file call other state)
    (known : call.index < file.invocations.size)
    (same : later.invocationAt call = file.invocationAt call) :
    OnlyCallSettled setting later call other state where
  linked sized := settled.linked (same ▸ sized)
  noted exceeds := settled.noted (exceeds.of_same known same.symm)

/-- The only compiled call of its name is what there is for calls that fit it. -/
theorem regroup_of_only {given : Nat}
    (only : compiledCallsNamed setting.pool compiled name = [other])
    (opened : state.isConsumed other.ref = false)
    (sized : (setting.pool.invocationAt other).arity = given ∨
      setting.arities.isPlausible (setting.pool.invocationAt other).namingId
        (setting.pool.invocationAt other).arity given = true) :
    setting.arities.regroup setting.pool state.registry compiled name given = [other] := by
  have notTaken : state.registry.isConsumed other.ref = false := opened
  rw [ArityTable.regroup, filter_of_only only]
  · simp [notTaken, ((compiledListed_iff_of_only only).mpr rfl).2, sized]
  · intro found _ passes
    simp only [Bool.and_eq_true, beq_iff_eq] at passes
    exact decide_eq_true passes.1.2

/-- A single call takes the only call there is for it. -/
theorem settleCalls_of_regroup {key : CallKey} (unlinked : state.file.isLinked call.ref = false)
    (opened : state.isConsumed other.ref = false)
    (regrouped : setting.arities.regroup setting.pool state.registry compiled key.1 key.2 = [other]) :
    (state.settleCalls setting compiled (key, [call])).file.link? call.ref =
      some ⟨other.ref, setting.pool.elementId other.ref⟩ := by
  let noted := state.noteOverflow
    (setting.arities.regroup? setting.pool state.registry compiled key.1 key.2).isNone
  obtain ⟨_, paired, _⟩ := @pairZip_links setting .invocation .invocation [call] [other] noted
    (callGroup key) rfl (List.nodup_singleton call) (List.nodup_singleton other)
    (List.forall_mem_singleton.mpr unlinked) (List.forall_mem_singleton.mpr opened)
  unfold settleCalls settleRegrouped
  dsimp only
  rw [noteOverflow_registry, regrouped, if_pos (show [other].length = [call].length from rfl)]
  exact paired rfl (inOrder_singleton call other) 0 call other rfl rfl

/-- When its turn comes, the only call of a name is settled. -/
theorem settleCalls_only {file : Source.File} (only : callsNamed file source name = [call])
    (compiledOnly : compiledCallsNamed setting.pool compiled name = [other])
    (unlinked : state.file.isLinked call.ref = false)
    (opened : state.isConsumed other.ref = false) :
    OnlyCallSettled setting file call other
      (state.settleCalls setting compiled (callKey file call, [call])) where
  linked sized := by
    have named := ((listed_iff_of_only only).mpr rfl).2
    have regrouped := regroup_of_only compiledOnly opened sized
    rw [← named] at regrouped
    exact settleCalls_of_regroup unlinked opened regrouped
  noted exceeds := by
    have unanswered : setting.arities.regroup? setting.pool state.registry compiled
        (callKey file call).1 (callKey file call).2 = none := by
      obtain ⟨listed, _⟩ := (compiledListed_iff_of_only compiledOnly).mpr rfl
      exact ArityTable.regroup?_eq_none_iff.mpr
        ⟨other, listed, opened, exceeds.named, exceeds.differs, exceeds.unanswered⟩
    have usual : ∀ finding : Finding, finding ≠ .deepLambda → True := fun _ _ => trivial
    unfold settleCalls
    dsimp only
    rw [unanswered]
    exact (settleRegrouped_adds usual _).overflow (Bool.or_true _)

/-- No other group has a call of that name. -/
theorem key_of_only {file : Source.File} (only : callsNamed file source name = [call])
    {key : CallKey} {own : Source.Handle .invocation} (member : own ∈ callsTo file source key)
    (named : key.1 = name) : key = callKey file call := by
  obtain ⟨listed, keyed⟩ := List.mem_filter.mp member
  obtain rfl := of_decide_eq_true keyed
  rw [(listed_iff_of_only only).mp ⟨listed, named⟩]

/-- When the groups are settled one after the other, the only compiled call of a name stays open until
the only call of that name comes. -/
theorem foldl_settleCalls_only {file : Source.File} (formed : file.WellFormed)
    (poolFormed : setting.pool.WellFormed) (same : file.Relinked state.file)
    {groups : Grouping CallKey (Source.Handle .invocation)}
    (chosen : groups.Sublist (groupBy (callKey file) (file.methodAt source).invocations))
    (unlinked : ∀ group ∈ groups, ∀ own ∈ callsTo file source group.1,
      state.file.isLinked own.ref = false)
    (opened : state.isConsumed other.ref = false)
    (only : callsNamed file source name = [call])
    (compiledOnly : compiledCallsNamed setting.pool compiled name = [other])
    (member : (callKey file call, [call]) ∈ groups) :
    OnlyCallSettled setting file call other (groups.foldl (settleCalls setting compiled) state) := by
  have compiledNamed := ((compiledListed_iff_of_only compiledOnly).mpr rfl).2
  have pass := @foldl_links _ setting state (settleCalls setting compiled)
    (fun group own found => ∃ a ∈ callsTo file source group.1,
      ∃ c, MayCall setting compiled group.1 c ∧ own = a.ref ∧ found = c.ref)
    (fun group current => (∀ a ∈ callsTo file source group.1,
      current.file.isLinked a.ref = false) ∧
        (group.1 = callKey file call → current.isConsumed other.ref = false))
    (fun group current => group.1 = callKey file call →
      OnlyCallSettled setting file call other current)
    groups
  refine (pass ?advance ?kept ?lasting ?ready).2 _ member rfl
  case advance =>
    rintro ⟨key, calls⟩ isGroup current before ⟨clear, stillOpen⟩
    have present := chosen.subset isGroup
    obtain rfl := (mem_groupBy.mp present).2
    refine ⟨(settleCalls_links formed poolFormed (same.trans before.gains.relinked) present
      clear).1, ?_⟩
    rintro rfl
    have alone : (file.methodAt source).invocations.filter
        (callKey file · = callKey file call) = [call] := callsTo_of_only only
    rw [callsTo, alone] at clear
    rw [alone]
    exact settleCalls_only only compiledOnly (clear call (List.mem_singleton_self call))
      (stillOpen rfl)
  case kept =>
    refine ((groupBy_keys_apart _ _).sublist chosen).imp
      fun {group next} apart current later steps clear => ⟨fun a isCall => ?_, fun isKey => ?_⟩
    · apply steps.unlinked (clear.1 a isCall)
      rintro _ ⟨b, isOther, _, _, same, _⟩
      obtain rfl := ref_injective same
      exact apart ((of_decide_eq_true (List.mem_filter.mp isOther).2).symm.trans
        (of_decide_eq_true (List.mem_filter.mp isCall).2))
    · apply steps.opened (clear.2 isKey)
      rintro _ ⟨a, isCall, c, may, _, same⟩
      obtain rfl := compiledRef_injective same
      exact apart ((key_of_only only isCall (may.2.1.symm.trans compiledNamed)).trans isKey.symm)
  case lasting =>
    exact fun _ _ _ _ steps settled isKey =>
      (settled isKey).mono steps.gains.link_kept steps.gains.overflow_kept
  case ready => exact fun group isGroup => ⟨unlinked group isGroup, fun _ => opened⟩

/-- The only call of a name is settled with the calls of its method. -/
theorem matchCalls_only (formed : state.file.WellFormed) (poolFormed : setting.pool.WellFormed)
    (unlinked : ∀ own ∈ (state.file.methodAt source).invocations,
      state.file.isLinked own.ref = false)
    (opened : ∀ found ∈ (setting.pool.methodAt compiled).invocations,
      state.isConsumed found.ref = false)
    (only : callsNamed state.file source name = [call])
    (compiledOnly : compiledCallsNamed setting.pool compiled name = [other]) :
    OnlyCallSettled setting state.file call other (state.matchCalls setting source compiled) := by
  obtain ⟨listed, named⟩ := (listed_iff_of_only only).mpr rfl
  obtain ⟨compiledListed, compiledNamed⟩ := (compiledListed_iff_of_only compiledOnly).mpr rfl
  let key := callKey state.file call
  have alone : callsTo state.file source key = [call] := callsTo_of_only only
  have compiledAlone : compiledCallsTo setting.pool compiled key =
      [other].filter (compiledCallKey setting.pool · = key) :=
    filter_of_only compiledOnly fun found _ keyed =>
      decide_eq_true ((congrArg Prod.fst (of_decide_eq_true keyed)).trans named)
  by_cases even : compiledCallKey setting.pool other = key
  · have settled := ((matchCalls_links formed poolFormed unlinked opened).2 key).1
    rw [alone, compiledAlone, List.filter_singleton, decide_eq_true even] at settled
    constructor
    case linked => exact fun _ => settled rfl (inOrder_singleton call other) 0 call other rfl rfl
    case noted => exact fun exceeds => absurd (congrArg Prod.snd even) exceeds.differs
  · rw [List.filter_singleton, decide_eq_false even] at compiledAlone
    let groups := groupBy (callKey state.file) (state.file.methodAt source).invocations
    let isEven := isEvenGroup setting.pool compiled
    obtain ⟨evenSteps, _⟩ :=
      @foldl_pairCalls_links setting state source compiled formed poolFormed unlinked opened
        (groups.filter isEven) List.filter_sublist
        fun group member => of_decide_eq_true (List.mem_filter.mp member).2
    rw [matchCalls_eq opened]
    refine foldl_settleCalls_only formed poolFormed evenSteps.gains.relinked List.filter_sublist
      (unlinked_of_uneven unlinked evenSteps) ?opened only compiledOnly ?member
    case opened =>
      apply evenSteps.opened (opened other compiledListed)
      rintro _ ⟨others, _, a, isCall, c, isCompiled, _, same⟩
      obtain rfl := compiledRef_injective same
      have keyed := of_decide_eq_true (List.mem_filter.mp isCompiled).2
      have sameName : others.1 = name := (congrArg Prod.fst keyed).symm.trans compiledNamed
      exact even (keyed.trans (key_of_only only isCall sameName))
    case member =>
      refine List.mem_filter.mpr ⟨mem_groupBy.mpr ⟨⟨call, listed, rfl⟩, alone.symm⟩, ?_⟩
      rw [isEvenGroup, compiledAlone]
      rfl

/-- What comes after the calls, until the body is done, only adds. -/
theorem matchBody_adds_calls {budget : Nat} :
    Adds (fun _ => True)
      (((state.addPair (source, compiled)).matchVariables setting source compiled).matchCalls setting
        source compiled)
      (state.matchBody setting (budget + 1) source compiled) := by
  have usual : ∀ finding : Finding, finding ≠ .deepLambda → True := fun _ _ => trivial
  have passes (current : State) : Adds (fun _ => True) current
      ((((current.matchAllocations setting source compiled).matchFieldAccesses setting source
        compiled).matchCasts setting source compiled).matchReferences setting source compiled) := by
    have fold : Adds (fun _ => True) current
        ([BodyPass.allocations, .accesses, .casts, .references].foldl
          (BodyPass.run setting source compiled) current) :=
      .foldl fun pass _ _ _ => runPass_adds usual pass
    simpa only [List.foldl_cons, List.foldl_nil, BodyPass.run] using fold
  have lambdas (current : State) : Adds (fun _ => True) current
      (current.matchLambdas setting (matchBody setting budget) source compiled) := by
    refine matchLambdas_adds usual fun lambda _ implementation later _ => ?_
    cases budget with
    | zero => exact .notice _ trivial
    | succ limit => exact matchBody_adds usual (.inl trivial)
  rw [matchBody, matchStatements]
  exact (aliasCallBases_adds.trans (passes _)).trans (lambdas _)

/-- The calls are matched right after the variables, when the calls of both sides are open. -/
theorem matchBody_only {done : List Source.File} {budget : Nat} (sound : state.Sound setting done)
    (linked : state.file.linkedMethod? source = some compiled)
    (untouched : state.file.Untouched source)
    (only : callsNamed state.file source name = [call])
    (compiledOnly : compiledCallsNamed setting.pool compiled name = [other]) :
    OnlyCallSettled setting state.file call other
      (state.matchBody setting (budget + 1) source compiled) := by
  have formed := sound.current.formed
  have opened : ∀ found, setting.pool.owningMethod? found = some compiled →
      state.isConsumed found = false := fun _ => sound.opened linked untouched
  let remembered := state.addPair (source, compiled)
  let varied := remembered.matchVariables setting source compiled
  obtain ⟨links, _⟩ := @BodyPass.run_links setting source compiled remembered .vars formed
    sound.pool ⟨fun own _ => untouched own, fun found _ => opened found⟩
  have same : state.file.Relinked varied.file := links.gains.relinked
  have variedFormed : varied.file.WellFormed := by
    have steps : Steps setting anyElement state varied :=
      .head (.enter linked) (links.steps formed fun own found fits => ⟨.statement linked fits.2.2, trivial⟩)
    exact (steps.sound sound).current.formed
  have listed := ((listed_iff_of_only only).mpr rfl).1
  have known := (formed.owner_of_listed .invocation (List.mem_map_of_mem listed)).1
  rw [← same.count] at known
  have sameCall := same.invocationAt call
  obtain ⟨_, sameFile⟩ := same
  have settled : OnlyCallSettled setting varied.file call other
      (varied.matchCalls setting source compiled) := by
    refine matchCalls_only variedFormed sound.pool (fun own listed => ?_) (fun found listed => ?_)
      (by rw [sameFile]; exact only) compiledOnly
    · rw [sameFile] at listed
      refine links.unlinked (untouched own.ref ?_) fun _ fits => nomatch fits.1
      exact (formed.owner_of_listed .invocation (List.mem_map_of_mem listed)).2
    · refine links.opened (opened found.ref ?_) fun _ fits => nomatch fits.2.1
      exact sound.pool.owningMethod_of_listed .invocation (List.mem_map_of_mem listed)
  have rest : Adds (fun _ => True) (varied.matchCalls setting source compiled)
      (state.matchBody setting (budget + 1) source compiled) := matchBody_adds_calls
  exact (settled.of_same known sameCall.symm).mono rest.extended.links rest.overflow

end State

/-! ### Whole runs -/

namespace ArityTable

/-- A call with `given` arguments may be a compiled call with `taken` of them. -/
def Explains (table : ArityTable) (name : String) (given taken : Nat) : Prop :=
  given = taken ∨ table.OnlyForm name given taken

theorem explains_iff {table : ArityTable} (ascending : table.Ascending) {name : String}
    {given taken : Nat} :
    table.Explains name given taken ↔
      taken = given ∨ table.isPlausible name taken given = true := by
  rw [Explains, isPlausible_iff ascending, eq_comm]

end ArityTable

/-- A linked call agrees with the only compiled call of its name. -/
theorem Fitted.explains_of_only {setting : Setting} {file : Source.File}
    {source : Source.Handle .method} {compiled : Compiled.Handle .method} {name : String}
    {call : Source.Handle .invocation} {other : Compiled.Handle .invocation}
    (fitted : Fitted setting file) (linked : file.linkedMethod? source = some compiled)
    (listed : call ∈ (file.methodAt source).invocations)
    (authoritative : file.isAuthoritative call.ref = true)
    (named : (file.invocationAt call).name = name)
    (compiledOnly : State.compiledCallsNamed setting.pool compiled name = [other])
    (isLinked : file.isLinked call.ref = true) :
    (setting.pool.invocationAt other).arity = (file.invocationAt call).arity ∨
      setting.arities.isPlausible (setting.pool.invocationAt other).namingId
        (setting.pool.invocationAt other).arity (file.invocationAt call).arity = true := by
  obtain ⟨link, found⟩ := Source.File.exists_link isLinked
  obtain ⟨owner, ownerCompiled, ownerLinked, fits⟩ :=
    (fitted.fits call.ref link found).of_statement ⟨nofun, nofun, nofun⟩
  have owned := (fitted.formed.owner_of_listed .invocation (List.mem_map_of_mem listed)).2
  obtain rfl := Option.some.inj ((fits.owner fitted.formed).2.symm.trans owned)
  obtain rfl := Option.some.inj (ownerLinked.symm.trans linked)
  obtain ⟨matched, _, compiledListed, matchedName, sized⟩ := fits.of_call authoritative
  obtain rfl := (State.compiledListed_iff_of_only compiledOnly).mp
    ⟨compiledListed, matchedName.trans named⟩
  exact sized

/-- At the end of the turn of a file, the only call of a name in a matched body is settled. -/
theorem Turn.onlyCall_settled {plan : Plan} {files : List Source.File} {outcome : Outcome} {i : Nat}
    {start final : State} (turn : Turn plan files outcome i start final)
    {source : Source.Handle .method} {compiled : Compiled.Handle .method}
    (linked : final.file.linkedMethod? source = some compiled)
    (shallow : final.file.nestingDepth source ≤ maxLambdaNesting)
    (authoritative : ∀ element : Source.Ref, element.index < start.file.count element.kind →
      start.file.isAuthoritative element = true)
    {name : String} {call : Source.Handle .invocation} {other : Compiled.Handle .invocation}
    (only : (State.callsNamed final.file source name).filter
      (fun own => final.file.isAuthoritative own.ref) = [call])
    (compiledOnly : State.compiledCallsNamed plan.pool compiled name = [other]) :
    State.OnlyCallSettled (plan.setting i) final.file call other final := by
  obtain ⟨_, visited, _⟩ := turn.explores
  obtain ⟨entry, before, entryLinked, untouched, after⟩ := visited source compiled linked
  have entrySound := before.sound turn.sound
  obtain ⟨excursion, _⟩ := State.matchBody_explores turn.sound _ before rfl entryLinked untouched
  have bodySteps : Steps (plan.setting i) anyElement entry final :=
    excursion.steps.any.trans after
  obtain ⟨finalSound, grown⟩ := bodySteps.sound_grows entrySound
  rw [grown.extended.nestingDepth] at shallow
  have standIns := before.standInsLinked turn.sound (.of_authoritative authoritative)
  -- When the body was entered, all its calls were there that are no stand-ins.
  have entryCalls {own : Source.Handle .invocation}
      (ownListed : own ∈ (entry.file.methodAt source).invocations) :=
    standIns.authoritative_of_untouched entrySound.current.formed untouched .invocation
      (List.mem_map_of_mem ownListed)
  have entryOnly : State.callsNamed entry.file source name = [call] :=
    (authoritative_calls finalSound.current.formed grown.extended
      (fun own ownListed => (entryCalls ownListed).1) (fun own ownListed => (entryCalls ownListed).2)
      fun record => decide (record.name = name)).symm.trans only
  have entryListed := ((State.listed_iff_of_only entryOnly).mpr rfl).1
  have entryKnown := (entryCalls entryListed).1
  obtain ⟨budget, enough⟩ : ∃ budget, maxLambdaNesting + 1 - entry.file.nestingDepth source =
      budget + 1 := ⟨_, Nat.succ_sub shallow⟩
  rw [enough] at after excursion
  have bodyDone := excursion.steps.sound entrySound
  have later := after.grows bodyDone
  exact ((State.matchBody_only entrySound entryLinked untouched entryOnly compiledOnly).of_same
    entryKnown (grown.extended.invocationAt entryKnown)).mono later.extended.links later.overflow

variable {plan : Plan} {files : List Source.File}

/-- Whatever the only call of a name in a matched body has come to by the end of the turn of its file,
the run ends with it. -/
theorem exists_onlyCall_settled (built : plan.pool.IsBuilt)
    (reachable : ∀ file ∈ files, file.Reachable)
    (unlinked : ∀ file ∈ files, ∀ element, file.isLinked element = false)
    (authoritative : ∀ file ∈ files, ∀ element : Source.Ref,
      element.index < file.count element.kind → file.isAuthoritative element = true)
    {file : Source.File} (member : file ∈ (run plan files).files)
    {source : Source.Handle .method} {compiled : Compiled.Handle .method}
    (linked : file.linkedMethod? source = some compiled)
    (shallow : file.nestingDepth source ≤ maxLambdaNesting) {name : String}
    {call : Source.Handle .invocation} {other : Compiled.Handle .invocation}
    (only : (State.callsNamed file source name).filter
      (fun own => file.isAuthoritative own.ref) = [call])
    (compiledOnly : State.compiledCallsNamed plan.pool compiled name = [other]) :
    ∃ i final, State.OnlyCallSettled (plan.setting i) file call other final ∧ final.file = file ∧
      (final.overflow = true → (run plan files).ledger.overflow = true) := by
  have sound := run_sound built reachable unlinked
  obtain ⟨i, found⟩ := List.mem_iff_getElem?.mp member
  obtain ⟨start, final, turn, rfl⟩ := sound.turn_of_final found
  refine ⟨i, final, turn.onlyCall_settled linked shallow ?_ only compiledOnly, rfl, turn.overflow⟩
  exact authoritative start.file (List.mem_of_getElem? turn.start_file)

/-- Where a source method and the compiled method it is matched to each call a name once, the two calls
are matched exactly if they have equally many arguments or variable arity explains the difference. -/
theorem run_onlyCall (built : plan.pool.IsBuilt) (reachable : ∀ file ∈ files, file.Reachable)
    (unlinked : ∀ file ∈ files, ∀ element, file.isLinked element = false)
    (authoritative : ∀ file ∈ files, ∀ element : Source.Ref,
      element.index < file.count element.kind → file.isAuthoritative element = true) :
    ∀ file ∈ (run plan files).files, ∀ source compiled,
      file.linkedMethod? source = some compiled → file.nestingDepth source ≤ maxLambdaNesting →
      ∀ name call other,
        (State.callsNamed file source name).filter (fun own => file.isAuthoritative own.ref) =
          [call] →
        State.compiledCallsNamed plan.pool compiled name = [other] →
        (file.invocationAt call).arity + 1 < Text.wordLimit →
        (plan.arities.Explains (plan.pool.invocationAt other).namingId (file.invocationAt call).arity
            (plan.pool.invocationAt other).arity →
          file.link? call.ref = some ⟨other.ref, plan.pool.elementId other.ref⟩) ∧
        (¬ plan.arities.Explains (plan.pool.invocationAt other).namingId
            (file.invocationAt call).arity (plan.pool.invocationAt other).arity →
          file.isLinked call.ref = false) := by
  -- The run compares numbers, so it needs no bound; within it the program compares them alike.
  intro file member source compiled linked shallow name call other only compiledOnly _
  have ascending : plan.arities.Ascending := .build _ _
  rw [ArityTable.explains_iff ascending]
  have isOnly : call ∈ (State.callsNamed file source name).filter
      (fun own => file.isAuthoritative own.ref) := by
    rw [only]
    exact List.mem_singleton_self call
  obtain ⟨isNamed, isAuthoritative⟩ := List.mem_filter.mp isOnly
  obtain ⟨listed, named⟩ := List.mem_filter.mp isNamed
  constructor
  · obtain ⟨_, final, settled, sameFile, _⟩ := exists_onlyCall_settled built reachable unlinked
      authoritative member linked shallow only compiledOnly
    exact fun explained => sameFile ▸ settled.linked explained
  · intro unexplained
    rw [Bool.eq_false_iff]
    have fitted := (run_sound built reachable unlinked).fitted 0 _ member
    exact fun isLinked => unexplained (fitted.explains_of_only linked listed isAuthoritative
      (of_decide_eq_true named) compiledOnly isLinked)

/-- The program stops where the only call of a name has to be compared with the only compiled call of
that name and the number after that of its arguments is no word. -/
theorem run?_eq_none_of_onlyCall (built : plan.pool.IsBuilt)
    (reachable : ∀ file ∈ files, file.Reachable)
    (unlinked : ∀ file ∈ files, ∀ element, file.isLinked element = false)
    (authoritative : ∀ file ∈ files, ∀ element : Source.Ref,
      element.index < file.count element.kind → file.isAuthoritative element = true)
    {file : Source.File} (member : file ∈ (run plan files).files)
    {source : Source.Handle .method} {compiled : Compiled.Handle .method}
    (linked : file.linkedMethod? source = some compiled)
    (shallow : file.nestingDepth source ≤ maxLambdaNesting) {name : String}
    {call : Source.Handle .invocation} {other : Compiled.Handle .invocation}
    (only : (State.callsNamed file source name).filter
      (fun own => file.isAuthoritative own.ref) = [call])
    (compiledOnly : State.compiledCallsNamed plan.pool compiled name = [other])
    (exceeds : Exceeds plan.pool plan.arities file call other) : run? plan files = none := by
  obtain ⟨_, _, settled, _, stays⟩ := exists_onlyCall_settled built reachable unlinked authoritative
    member linked shallow only compiledOnly
  rw [run?, stays (settled.noted exceeds)]
  rfl

/-! ### A call of variable arity -/

/-- A method that looks up a method. -/
def variadicPlan : Plan :=
  let steps : List Compiled.Step :=
    [.type "p.A", .method ⟨0⟩ { name := "m", params := [], returnType := "void" } {},
      .invocation ⟨0⟩ "java.lang.Class"
        { name := "getMethod", params := ["java.lang.String", "java.lang.Class[]"]
          returnType := "java.lang.reflect.Method" } none]
  { pool := (({} : Compiled.Builder).performAll steps).1.finish.pool }

/-- Its source, which passes a name and two parameter types. -/
def variadicFile : Source.File :=
  ({ path := "p/A.src.json", package := "p" } : Source.File).performAll
    [.type "A" none none, .method ⟨0⟩ "m" none false none,
      .invocation ⟨1⟩ "getMethod" 3 none none none]

theorem variadicPlan_isBuilt : variadicPlan.pool.IsBuilt := by
  refine ⟨_, Compiled.Builder.Reachable.empty.performAll ?admitted, rfl⟩
  exact ⟨trivial, Nat.zero_lt_one, Nat.zero_lt_one, trivial⟩

theorem variadicFile_reachable : ∀ file ∈ [variadicFile], file.Reachable := by
  refine List.forall_mem_singleton.mpr ?_
  refine (Source.File.Reachable.empty "p/A.src.json" "p").performAll ?admitted
  exact ⟨nofun, Nat.zero_lt_one, ⟨Nat.one_lt_two, nofun, nofun⟩, trivial⟩

theorem variadicFile_unlinked :
    ∀ file ∈ [variadicFile], ∀ element, file.isLinked element = false :=
  List.forall_mem_singleton.mpr fun _ => rfl

theorem variadicFile_authoritative : ∀ file ∈ [variadicFile], ∀ element : Source.Ref,
    element.index < file.count element.kind → file.isAuthoritative element = true := by
  refine List.forall_mem_singleton.mpr (Source.File.authoritative_of_entries ?_ ?_ ?_)
  all_goals decide +kernel

/-- The file after the run. -/
def variadicResult : Source.File :=
  (run variadicPlan [variadicFile]).files.headD default

theorem variadicResult_mem : variadicResult ∈ (run variadicPlan [variadicFile]).files :=
  headD_mem_run variadicPlan_isBuilt variadicFile_reachable variadicFile_unlinked

/-- The only calls of the two methods after the run. -/
theorem variadicResult_calls :
    variadicResult.linkedMethod? ⟨1⟩ = some ⟨0⟩ ∧
      variadicResult.nestingDepth ⟨1⟩ ≤ maxLambdaNesting ∧
      (State.callsNamed variadicResult ⟨1⟩ "getMethod").filter
        (fun own => variadicResult.isAuthoritative own.ref) = [⟨0⟩] ∧
      (variadicResult.invocationAt ⟨0⟩).arity = 3 := by
  decide +kernel

theorem variadicPlan_calls :
    State.compiledCallsNamed variadicPlan.pool ⟨0⟩ "getMethod" = [⟨0⟩] ∧
      (variadicPlan.pool.invocationAt ⟨0⟩).namingId = "java.lang.Class.getMethod" ∧
      (variadicPlan.pool.invocationAt ⟨0⟩).arity = 2 ∧
      variadicPlan.arities.arities? "java.lang.Class.getMethod" = some [2] := by
  decide +kernel

/-- A method is looked up with a name and an array of types. -/
theorem run_onlyCall_variadic :
    variadicResult.link? (⟨0⟩ : Source.Handle .invocation).ref =
      some ⟨(⟨0⟩ : Compiled.Handle .invocation).ref,
        variadicPlan.pool.elementId (⟨0⟩ : Compiled.Handle .invocation).ref⟩ := by
  obtain ⟨linked, shallow, only, given⟩ := variadicResult_calls
  obtain ⟨compiledOnly, named, taken, declared⟩ := variadicPlan_calls
  have outcome := run_onlyCall variadicPlan_isBuilt variadicFile_reachable variadicFile_unlinked
    variadicFile_authoritative variadicResult variadicResult_mem ⟨1⟩ ⟨0⟩ linked shallow "getMethod"
    ⟨0⟩ ⟨0⟩ only compiledOnly
  rw [given, named, taken] at outcome
  refine (outcome (by decide)).1 (.inr ⟨[2], declared, fun arity => ?_⟩)
  rw [List.mem_singleton]
  omega

end Correlate.Matching
