/-
Module: Correlate.Proofs.Matching.Lockstep
Purpose: Two runs that do the same to the members and the bodies that they are both at.
Main exports: File.Agree, Setting.varied, Lockstep, Lockstep.pairGroup, Lockstep.matchCalls,
  Lockstep.matchFieldAccesses, Lockstep.matchMethods
-/
import Mathlib.Data.List.Find
import Correlate.Matching.Type
import Correlate.Proofs.Matching.Calls
import Correlate.Proofs.Matching.Members
import Correlate.Proofs.Source.Extension

namespace Correlate

namespace Source.File

/-- Two files tell the same, as far as some of their elements are concerned. -/
structure Agree (own : Ref → Prop) (file other : File) : Prop where
  lines : ∀ element, own element → file.startLine? element = other.startLine? element
  binaryName : ∀ type, (file.typeAt type).binaryName = (other.typeAt type).binaryName
  typeMethods : ∀ type, (file.typeAt type).methods = (other.typeAt type).methods
  fieldAt : ∀ field : Handle .field, own field → file.fieldAt field = other.fieldAt field
  methodAt : ∀ method : Handle .method, own method → file.methodAt method = other.methodAt method
  invocationAt : ∀ call : Handle .invocation, own call →
    file.invocationAt call = other.invocationAt call
  fieldAccessAt : ∀ access, file.fieldAccessAt access = other.fieldAccessAt access
  methodRefAt : ∀ reference, file.methodRefAt reference = other.methodRefAt reference
  paramTypes : ∀ method, file.paramTypes method = other.paramTypes method
  resolve : ∀ spelling, file.resolve spelling = other.resolve spelling

namespace Agree

variable {own : Ref → Prop} {file other base : File}

theorem refl (own : Ref → Prop) (file : File) : file.Agree own file where
  lines _ _ := rfl
  binaryName _ := rfl
  typeMethods _ := rfl
  fieldAt _ _ := rfl
  methodAt _ _ := rfl
  invocationAt _ _ := rfl
  fieldAccessAt _ := rfl
  methodRefAt _ := rfl
  paramTypes _ := rfl
  resolve _ := rfl

theorem methodCandidates (agree : file.Agree own other) (declaring : String)
    (result : Option String) (name : String) (params : List (Option String)) :
    file.methodCandidates declaring result name params =
      other.methodCandidates declaring result name params := by
  have same : file.resolve = other.resolve := funext agree.resolve
  simp only [File.methodCandidates, same]

end Agree

end Source.File

namespace Matching

/-!
Two runs, in settings that differ in the number of the file and in whether allocations are paired line
by line, are tied by a relation.  As far as some source elements and some compiled elements are
concerned, the tie makes the two runs find the same, and matching them in both runs keeps the tie.
Then every pass that keeps to these elements keeps the tie: it does the same in both runs.  The passes
over allocations are not among them.
-/

/-- The setting of another file, or of a run that treats allocations differently. -/
abbrev Setting.varied (setting : Setting) (i : Nat) (lossy : Bool) : Setting :=
  { setting with fileIndex := i, options := { setting.options with lossy } }

/-- A pass that goes through the same items on both sides. -/
theorem foldl_tied {γ : Type} {tied : State → State → Prop} {step otherStep : State → γ → State}
    (items : List γ) {one two : State} (now : tied one two)
    (advance : ∀ item ∈ items, ∀ {one two : State}, tied one two →
      tied (step one item) (otherStep two item)) :
    tied (items.foldl step one) (items.foldl otherStep two) := by
  induction items generalizing one two with
  | nil => exact now
  | cons item rest inductionHypothesis =>
      rw [List.foldl_cons, List.foldl_cons]
      apply inductionHypothesis (advance item List.mem_cons_self now)
      exact fun next member => advance next (List.mem_cons_of_mem _ member)

/-- The open ones of a group are among the elements that were grouped. -/
theorem members_groupBy_open {has : Compiled.Ref → Prop} {κ : Type} [DecidableEq κ]
    {kind : Compiled.Kind} {key : Compiled.Handle kind → κ} {elements : List (Compiled.Handle kind)}
    {state : State} (inside : ∀ element ∈ elements, has element.ref) (k : κ) :
    ∀ member ∈ (groupBy key (state.openOf elements)).members k, has member.ref := by
  intro member isMember
  rw [members_groupBy] at isMember
  exact inside member (List.mem_of_mem_filter (List.mem_of_mem_filter isMember))

/-- The base of a call only has an effect on the aliases. -/
theorem aliasCallBase_eq (setting : Setting) (compiled : Compiled.Handle .method) (state : State)
    (call : Source.Handle .invocation) :
    ∃ aliases, state.aliasCallBase setting compiled call = { state with aliases } := by
  unfold State.aliasCallBase
  split
  · split
    · exact ⟨_, rfl⟩
    · exact ⟨state.aliases, rfl⟩
  · exact ⟨state.aliases, rfl⟩

/-- Tied runs find the same in some elements, and stay tied when they match these. -/
structure Lockstep (setting : Setting) (i : Nat) (lossy : Bool) (own : Source.Ref → Prop)
    (has : Compiled.Ref → Prop) (tied : State → State → Prop) : Prop where
  agree : ∀ {one two}, tied one two → one.file.Agree own two.file
  linked : ∀ {one two}, tied one two → ∀ element, own element →
    one.file.isLinked element = two.file.isLinked element
  consumed : ∀ {one two}, tied one two → ∀ element, has element →
    one.isConsumed element = two.isConsumed element
  notice : ∀ {one two}, tied one two → ∀ line finding,
    tied (one.notice line finding) (two.notice line finding)
  aliased : ∀ {one two}, tied one two → ∀ aliases otherAliases,
    tied { one with aliases } { two with aliases := otherAliases }
  overflow : ∀ {one two}, tied one two → ∀ exceeds otherExceeds,
    tied (one.noteOverflow exceeds) (two.noteOverflow otherExceeds)
  record : ∀ {one two}, tied one two → ∀ {element other}, own element → has other →
    tied (one.record setting element other) (two.record (setting.varied i lossy) element other)

namespace Lockstep

variable {setting : Setting} {i : Nat} {lossy : Bool} {own : Source.Ref → Prop}
  {has : Compiled.Ref → Prop} {tied : State → State → Prop}
  (lockstep : Lockstep setting i lossy own has tied) {one two : State}

include lockstep

/-! ### Single matches -/

theorem accepts (now : tied one two) {element : Source.Ref} {other : Compiled.Ref}
    (owned : own element) (inside : has other) :
    one.accepts element other = two.accepts element other := by
  have taken := lockstep.consumed now other inside
  unfold State.isConsumed at taken
  rw [State.accepts, State.accepts, Registry.accepts, Registry.accepts, taken,
    lockstep.linked now element owned]

/-- The open ones among elements in which the runs find the same. -/
theorem openOf (now : tied one two) {kind : Compiled.Kind}
    {elements : List (Compiled.Handle kind)} (inside : ∀ element ∈ elements, has element.ref) :
    one.openOf elements = two.openOf elements := by
  apply List.filter_congr
  intro element member
  rw [lockstep.consumed now element (inside element member)]

theorem noticeAt (now : tied one two) {element : Source.Ref} (owned : own element)
    (finding : Finding) : tied (one.noticeAt element finding) (two.noticeAt element finding) := by
  rw [State.noticeAt, State.noticeAt, (lockstep.agree now).lines element owned]
  exact lockstep.notice now _ finding

/-- Why the first of some elements, if there is one, was not matched. -/
theorem noticeFirst (now : tied one two) {kind : Source.Kind} {sources : List (Source.Handle kind)}
    (owned : ∀ source ∈ sources, own source.ref) (finding : Finding) :
    tied (one.notice (sources.head?.bind fun first => one.file.startLine? first.ref) finding)
      (two.notice (sources.head?.bind fun first => two.file.startLine? first.ref) finding) := by
  cases sources with
  | nil => exact lockstep.notice now _ finding
  | cons first rest => exact lockstep.noticeAt now (owned first List.mem_cons_self) finding

theorem pairGroup (now : tied one two) (group : String) {pairs : List (Source.Ref × Compiled.Ref)}
    (owned : ∀ pair ∈ pairs, own pair.1) (inside : ∀ pair ∈ pairs, has pair.2) :
    tied (one.pairGroup setting group pairs)
      (two.pairGroup (setting.varied i lossy) group pairs) := by
  have recorded : tied
      (pairs.foldl (fun state pair => state.record setting pair.1 pair.2) one)
      (pairs.foldl (fun state pair => state.record (setting.varied i lossy) pair.1 pair.2) two) :=
    foldl_tied pairs now fun pair member _ _ current =>
      lockstep.record current (owned pair member) (inside pair member)
  have lines : pairLines one.file setting.pool pairs = pairLines two.file setting.pool pairs := by
    apply List.map_congr_left
    intro pair member
    exact congrArg (·, setting.pool.elementLine pair.2)
      ((lockstep.agree now).lines pair.1 (owned pair member))
  have line (place : Nat) : ((pairs[place]?).bind fun pair => one.file.startLine? pair.1) =
      (pairs[place]?).bind fun pair => two.file.startLine? pair.1 := by
    cases found : pairs[place]? with
    | none => rfl
    | some pair =>
        exact (lockstep.agree now).lines pair.1 (owned pair (List.mem_of_getElem? found))
  unfold State.pairGroup
  dsimp only
  rw [lines]
  generalize (if setting.options.verifyOrdering = true then _ else _) = inversion
  cases inversion with
  | none => exact recorded
  | some places =>
      dsimp only
      rw [line]
      exact lockstep.notice now _ _

/-- Two lists that are paired position by position. -/
theorem pairZip (now : tied one two) (group : String) {sourceKind : Source.Kind}
    {compiledKind : Compiled.Kind} {sources : List (Source.Handle sourceKind)}
    {compiled : List (Compiled.Handle compiledKind)} (owned : ∀ source ∈ sources, own source.ref)
    (inside : ∀ other ∈ compiled, has other.ref) :
    tied (one.pairGroup setting group (State.zipRefs sources compiled))
      (two.pairGroup (setting.varied i lossy) group (State.zipRefs sources compiled)) := by
  apply lockstep.pairGroup now
  · intro pair member
    obtain ⟨source, other, zipped, rfl⟩ := mem_zipRefs.mp member
    exact owned source (List.of_mem_zip zipped).1
  · intro pair member
    obtain ⟨source, other, zipped, rfl⟩ := mem_zipRefs.mp member
    exact inside other (List.of_mem_zip zipped).2

theorem recordSome (now : tied one two) {element : Source.Ref} (owned : own element)
    {kind : Compiled.Kind} {counterpart : Option (Compiled.Handle kind)}
    (inside : ∀ other, counterpart = some other → has other.ref) :
    tied (one.recordSome setting element counterpart)
      (two.recordSome (setting.varied i lossy) element counterpart) := by
  cases counterpart with
  | none => exact now
  | some other => exact lockstep.record now owned (inside other rfl)

/-! ### Variables and calls -/

section Bodies

variable {source : Source.Handle .method} {compiled : Compiled.Handle .method}
  (sourceOwned : own source.ref)

include sourceOwned

theorem matchVariables (now : tied one two)
    (owned : ∀ held ∈ (one.file.methodAt source).receiver.toList ++
      (one.file.methodAt source).params, own held.ref)
    (inside : ∀ slot ∈ (setting.pool.methodAt compiled).receiver.toList ++
      (setting.pool.methodAt compiled).params, has slot.ref) :
    tied (one.matchVariables setting source compiled)
      (two.matchVariables (setting.varied i lossy) source compiled) := by
  have same : one.variablePairs setting source compiled =
      two.variablePairs (setting.varied i lossy) source compiled := by
    unfold State.variablePairs
    rw [(lockstep.agree now).methodAt source sourceOwned]
  unfold State.matchVariables
  rw [← same]
  apply foldl_tied _ now
  rintro ⟨held, slot⟩ member current other ties
  have heldOwned : own held.ref := owned held
    (State.fst_variablePairs_sublist.subset (List.mem_map_of_mem member))
  have slotInside : has slot.ref := inside slot
    (State.snd_variablePairs_sublist.subset (List.mem_map_of_mem member))
  unfold State.matchVariable
  dsimp only
  rw [lockstep.accepts ties heldOwned slotInside]
  split
  · exact lockstep.aliased (lockstep.record ties heldOwned slotInside) _ _
  · exact lockstep.record ties heldOwned slotInside

/-! ### Calls -/

section Calls

variable (inside : ∀ call ∈ (setting.pool.methodAt compiled).invocations, has call.ref)

include inside

omit sourceOwned in
theorem matchCallOnLine (now : tied one two) (key : State.CallKey)
    {onLine : Option Nat × List (Source.Handle .invocation)}
    (owned : ∀ call ∈ onLine.2, own call.ref) :
    tied (one.matchCallOnLine setting compiled key onLine)
      (two.matchCallOnLine (setting.varied i lossy) compiled key onLine) := by
  unfold State.matchCallOnLine
  split
  · next line call =>
    have same : one.openCallsOnLine setting compiled key line =
        two.openCallsOnLine (setting.varied i lossy) compiled key line := by
      unfold State.openCallsOnLine
      rw [lockstep.openOf now inside]
    rw [same]
    generalize found : two.openCallsOnLine (setting.varied i lossy) compiled key line = calls
    match calls, found with
    | [], _ => exact now
    | [only], found =>
        apply lockstep.record now (owned call (List.mem_singleton_self call))
        have listed : only ∈ two.openCallsOnLine (setting.varied i lossy) compiled key line := by
          rw [found]
          exact List.mem_singleton_self only
        exact inside only (List.mem_of_mem_filter (List.mem_of_mem_filter listed))
    | _ :: _ :: _, _ => exact now
  · exact now

omit sourceOwned in
theorem matchCallsByLine (now : tied one two) (key : State.CallKey)
    {sources : List (Source.Handle .invocation)} (owned : ∀ call ∈ sources, own call.ref) :
    tied (one.matchCallsByLine setting compiled key sources)
      (two.matchCallsByLine (setting.varied i lossy) compiled key sources) := by
  have line : ∀ call ∈ sources, one.file.startLine? call.ref = two.file.startLine? call.ref :=
    fun call member => (lockstep.agree now).lines call.ref (owned call member)
  have lined : (sources.filter fun call : Source.Handle .invocation =>
        (one.file.startLine? call).isSome && !one.file.isLinked call) =
      sources.filter fun call : Source.Handle .invocation =>
        (two.file.startLine? call).isSome && !two.file.isLinked call := by
    apply List.filter_congr
    intro call member
    rw [line call member, lockstep.linked now call.ref (owned call member)]
  unfold State.matchCallsByLine
  dsimp only
  rw [lined, groupBy_congr fun call member => line call (List.mem_of_mem_filter member)]
  apply foldl_tied _ now
  rintro ⟨line, calls⟩ member _ _ current
  obtain ⟨_, rfl⟩ := mem_groupBy.mp member
  exact lockstep.matchCallOnLine inside current key fun call listed =>
    owned call (List.mem_of_mem_filter (List.mem_of_mem_filter listed))

omit sourceOwned in
theorem settleRegrouped (now : tied one two)
    {group : State.CallKey × List (Source.Handle .invocation)}
    (owned : ∀ call ∈ group.2, own call.ref) :
    tied (one.settleRegrouped setting compiled group)
      (two.settleRegrouped (setting.varied i lossy) compiled group) := by
  have regrouped (name : String) (arity : Nat) :
      setting.arities.regroup setting.pool one.registry compiled name arity =
        setting.arities.regroup setting.pool two.registry compiled name arity := by
    apply List.filter_congr
    intro call member
    have taken := lockstep.consumed now call.ref (inside call member)
    unfold State.isConsumed at taken
    rw [taken]
  unfold State.settleRegrouped
  dsimp only
  rw [regrouped]
  split
  · apply lockstep.pairZip now _ owned
    exact fun call member => inside call (List.mem_of_mem_filter member)
  · exact lockstep.matchCallsByLine inside (lockstep.noticeFirst now owned _) _ owned

omit sourceOwned in
theorem settleCalls (now : tied one two)
    {group : State.CallKey × List (Source.Handle .invocation)}
    (owned : ∀ call ∈ group.2, own call.ref) :
    tied (one.settleCalls setting compiled group)
      (two.settleCalls (setting.varied i lossy) compiled group) :=
  lockstep.settleRegrouped inside (lockstep.overflow now _ _) owned

theorem matchCalls (now : tied one two)
    (owned : ∀ call ∈ (one.file.methodAt source).invocations, own call.ref) :
    tied (one.matchCalls setting source compiled)
      (two.matchCalls (setting.varied i lossy) source compiled) := by
  have sources : one.sourceCalls source = two.sourceCalls source := by
    unfold State.sourceCalls
    rw [← (lockstep.agree now).methodAt source sourceOwned]
    apply groupBy_congr
    intro call member
    rw [(lockstep.agree now).invocationAt call (owned call member)]
  have candidates : one.openCalls setting compiled =
      two.openCalls (setting.varied i lossy) compiled := by
    unfold State.openCalls
    rw [lockstep.openOf now inside]
  have members {key : State.CallKey} {calls : List (Source.Handle .invocation)}
      (member : (key, calls) ∈ one.sourceCalls source) : ∀ call ∈ calls, own call.ref := by
    obtain ⟨_, rfl⟩ := mem_groupBy.mp member
    exact fun call listed => owned call (List.mem_of_mem_filter listed)
  unfold State.matchCalls
  rw [← sources, ← candidates]
  simp only [List.partition_eq_filter_filter]
  refine foldl_tied _ (foldl_tied _ now ?even) ?uneven
  case even =>
    rintro ⟨key, calls⟩ member _ _ current
    apply lockstep.pairZip current _ (members (List.mem_of_mem_filter member))
    exact members_groupBy_open inside key
  case uneven =>
    exact fun group member _ _ current =>
      lockstep.settleCalls inside current (members (List.mem_of_mem_filter member))

end Calls

/-- Aliases may differ in any way. -/
theorem aliasCallBases (now : tied one two) :
    tied (one.aliasCallBases setting source compiled)
      (two.aliasCallBases (setting.varied i lossy) source compiled) := by
  unfold State.aliasCallBases
  rw [(lockstep.agree now).methodAt source sourceOwned]
  apply foldl_tied _ now
  intro call _ current other ties
  obtain ⟨aliases, same⟩ := aliasCallBase_eq setting compiled current call
  obtain ⟨otherAliases, otherSame⟩ := aliasCallBase_eq (setting.varied i lossy) compiled other call
  rw [same, otherSame]
  exact lockstep.aliased ties aliases otherAliases

/-! ### Field accesses -/

section Accesses

variable (inside : ∀ access ∈ (setting.pool.methodAt compiled).fieldAccesses, has access.ref)

omit sourceOwned in
theorem matchAccessesOfKind (now : tied one two) (name : String)
    {sources : List (Source.Handle .fieldAccess)} {candidates : List (Compiled.Handle .fieldAccess)}
    (owned : ∀ access ∈ sources, own access.ref)
    (open_inside : ∀ candidate ∈ candidates, has candidate.ref) (kind : AccessKind) :
    tied (one.matchAccessesOfKind setting name sources candidates kind)
      (two.matchAccessesOfKind (setting.varied i lossy) name sources candidates kind) := by
  have same : (sources.filter fun access => (one.file.fieldAccessAt access).kind = kind) =
      sources.filter fun access => (two.file.fieldAccessAt access).kind = kind :=
    List.filter_congr fun access _ => by rw [(lockstep.agree now).fieldAccessAt]
  have ofKind : ∀ access ∈ sources.filter fun access =>
      (two.file.fieldAccessAt access).kind = kind, own access.ref :=
    fun access member => owned access (List.mem_of_mem_filter member)
  unfold State.matchAccessesOfKind
  dsimp only
  rw [same]
  generalize sources.filter _ = sources at ofKind ⊢
  cases sources with
  | nil => exact now
  | cons access rest =>
      dsimp only
      split
      · apply lockstep.pairZip now _ ofKind
        exact fun candidate member => open_inside candidate (List.mem_of_mem_filter member)
      · exact lockstep.noticeAt now (ofKind access List.mem_cons_self) _

omit sourceOwned in
theorem matchAccessGroup (now : tied one two)
    {candidates : Grouping String (Compiled.Handle .fieldAccess)}
    {group : String × List (Source.Handle .fieldAccess)}
    (owned : ∀ access ∈ group.2, own access.ref)
    (open_inside : ∀ candidate ∈ candidates.members group.1, has candidate.ref) :
    tied (one.matchAccessGroup setting candidates group)
      (two.matchAccessGroup (setting.varied i lossy) candidates group) := by
  obtain ⟨name, sources⟩ := group
  have mismatch : one.firstKindMismatch? setting sources (candidates.members name) =
      two.firstKindMismatch? (setting.varied i lossy) sources (candidates.members name) := by
    unfold State.firstKindMismatch?
    simp only [(lockstep.agree now).fieldAccessAt]
  unfold State.matchAccessGroup
  dsimp only
  rw [mismatch]
  split
  · generalize found :
      two.firstKindMismatch? (setting.varied i lossy) sources (candidates.members name) = mismatched
    cases mismatched with
    | none => exact lockstep.pairZip now _ owned open_inside
    | some access =>
        obtain ⟨pair, first, rfl⟩ := Option.map_eq_some_iff.mp found
        have zipped := List.mem_of_find?_eq_some first
        exact lockstep.noticeAt now (owned pair.1 (List.of_mem_zip zipped).1) _
  · exact foldl_tied _ now fun kind _ _ _ current =>
      lockstep.matchAccessesOfKind current name owned open_inside kind

include inside

theorem matchFieldAccesses (now : tied one two)
    (owned : ∀ access ∈ (one.file.methodAt source).fieldAccesses, own access.ref) :
    tied (one.matchFieldAccesses setting source compiled)
      (two.matchFieldAccesses (setting.varied i lossy) source compiled) := by
  have sources : one.sourceAccesses source = two.sourceAccesses source := by
    unfold State.sourceAccesses
    simp only [(lockstep.agree now).methodAt source sourceOwned,
      (lockstep.agree now).fieldAccessAt]
  have candidates : one.openAccesses setting compiled =
      two.openAccesses (setting.varied i lossy) compiled := by
    unfold State.openAccesses
    rw [lockstep.openOf now inside]
  unfold State.matchFieldAccesses
  rw [← sources, ← candidates]
  apply foldl_tied _ now
  rintro ⟨name, accesses⟩ member _ _ current
  apply lockstep.matchAccessGroup current _ (members_groupBy_open inside name)
  obtain ⟨_, rfl⟩ := mem_groupBy.mp member
  exact fun access listed =>
    owned access (List.mem_of_mem_filter (List.mem_of_mem_filter listed))

omit sourceOwned in
theorem matchOuterThisAccess (now : tied one two) {access : Source.Handle .fieldAccess × String}
    (owned : own access.1.ref) :
    tied (one.matchOuterThisAccess setting compiled access)
      (two.matchOuterThisAccess (setting.varied i lossy) compiled access) := by
  have same (types : List String) : one.outerThisCounterpart? setting compiled types =
      two.outerThisCounterpart? (setting.varied i lossy) compiled types := by
    apply List.find?_congr
    intro candidate member
    dsimp only
    rw [lockstep.consumed now candidate.ref (inside candidate member)]
  unfold State.matchOuterThisAccess
  rw [(lockstep.agree now).resolve, same]
  generalize found :
    two.outerThisCounterpart? (setting.varied i lossy) compiled _ = counterpart
  cases counterpart with
  | none => exact now
  | some counterpart =>
      exact lockstep.record now owned (inside counterpart (List.mem_of_find?_eq_some found))

theorem matchOuterThis (now : tied one two)
    (owned : ∀ access ∈ (one.file.methodAt source).fieldAccesses, own access.ref) :
    tied (one.matchOuterThis setting (source, compiled))
      (two.matchOuterThis (setting.varied i lossy) (source, compiled)) := by
  have sources : one.openOuterThis source = two.openOuterThis source := by
    unfold State.openOuterThis
    rw [← (lockstep.agree now).methodAt source sourceOwned]
    apply List.filterMap_congr
    intro access member
    rw [lockstep.linked now access.ref (owned access member),
      (lockstep.agree now).fieldAccessAt access]
  unfold State.matchOuterThis
  dsimp only
  rw [← sources]
  apply foldl_tied _ now
  intro access member _ _ current
  apply lockstep.matchOuterThisAccess inside current
  obtain ⟨listed, isListed, kept⟩ := List.mem_filterMap.mp member
  split at kept
  · cases kept
  · obtain ⟨qualifier, _, rfl⟩ := Option.map_eq_some_iff.mp kept
    exact owned listed isListed

end Accesses

/-! ### Casts and method references -/

theorem matchCasts (now : tied one two)
    (owned : ∀ conversion ∈ (one.file.methodAt source).casts, own conversion.ref)
    (inside : ∀ conversion ∈ (setting.pool.methodAt compiled).casts, has conversion.ref) :
    tied (one.matchCasts setting source compiled)
      (two.matchCasts (setting.varied i lossy) source compiled) := by
  unfold State.matchCasts
  rw [← (lockstep.agree now).methodAt source sourceOwned, lockstep.openOf now inside]
  dsimp only
  generalize (one.file.methodAt source).casts = sources at owned ⊢
  cases sources with
  | nil => exact now
  | cons conversion rest =>
      dsimp only
      split
      · apply lockstep.pairZip now _ owned
        exact fun candidate member => inside candidate (List.mem_of_mem_filter member)
      · exact lockstep.noticeAt now (owned conversion List.mem_cons_self) _

theorem matchReferences (now : tied one two)
    (owned : ∀ reference ∈ (one.file.methodAt source).methodRefs, own reference.ref)
    (inside : ∀ reference ∈ (setting.pool.methodAt compiled).methodRefs, has reference.ref) :
    tied (one.matchReferences setting source compiled)
      (two.matchReferences (setting.varied i lossy) source compiled) := by
  have sources : one.sourceReferences source = two.sourceReferences source := by
    unfold State.sourceReferences
    simp only [(lockstep.agree now).methodAt source sourceOwned,
      (lockstep.agree now).methodRefAt]
  have candidates : one.openReferences setting compiled =
      two.openReferences (setting.varied i lossy) compiled := by
    unfold State.openReferences
    rw [lockstep.openOf now inside]
  unfold State.matchReferences
  rw [← sources, ← candidates]
  apply foldl_tied _ now
  rintro ⟨name, references⟩ member _ _ current
  have groupOwned : ∀ reference ∈ references, own reference.ref := by
    obtain ⟨_, rfl⟩ := mem_groupBy.mp member
    exact fun reference listed => owned reference (List.mem_of_mem_filter listed)
  unfold State.matchReferenceGroup
  dsimp only
  split
  · exact lockstep.pairZip current _ groupOwned (members_groupBy_open inside name)
  · exact lockstep.noticeFirst current groupOwned _

end Bodies

/-! ### Members -/

theorem matchField (now : tied one two) {compiledType : Compiled.Handle .type}
    {field : Source.Handle .field} (owned : own field.ref)
    (inside : ∀ candidate ∈ (setting.pool.typeAt compiledType).fields, has candidate.ref) :
    tied (one.matchField setting compiledType field)
      (two.matchField (setting.varied i lossy) compiledType field) := by
  have same : one.fieldCounterpart? setting compiledType field =
      two.fieldCounterpart? (setting.varied i lossy) compiledType field := by
    apply List.find?_congr
    intro candidate member
    rw [(lockstep.agree now).fieldAt field owned,
      lockstep.consumed now candidate.ref (inside candidate member)]
  unfold State.matchField
  rw [same]
  generalize found :
    two.fieldCounterpart? (setting.varied i lossy) compiledType field = counterpart
  cases counterpart with
  | none => exact now
  | some counterpart =>
      exact lockstep.record now owned (inside counterpart (List.mem_of_find?_eq_some found))

section Methods

variable {type : Source.Handle .type} {compiledType : Compiled.Handle .type}

theorem matchOverload (now : tied one two) {candidates : List (Compiled.Handle .method)}
    (inside : ∀ candidate ∈ candidates, has candidate.ref) {method : Source.Handle .method}
    (owned : own method.ref) :
    tied (one.matchOverload setting candidates method)
      (two.matchOverload (setting.varied i lossy) candidates method) := by
  have same : one.overloadCounterpart? setting candidates method =
      two.overloadCounterpart? (setting.varied i lossy) candidates method := by
    unfold State.overloadCounterpart?
    rw [(lockstep.agree now).methodAt method owned, (lockstep.agree now).paramTypes,
      lockstep.openOf now inside]
  unfold State.matchOverload
  rw [same]
  exact lockstep.recordSome now owned fun other found =>
    inside other (State.overloadCounterpart_open found).1

theorem matchNamed (now : tied one two) {compiled : Grouping String (Compiled.Handle .method)}
    {group : String × List (Source.Handle .method)} (owned : ∀ method ∈ group.2, own method.ref)
    (inside : ∀ candidate ∈ compiled.members group.1, has candidate.ref) :
    tied (one.matchNamed setting type compiledType compiled group)
      (two.matchNamed (setting.varied i lossy) type compiledType compiled group) := by
  obtain ⟨name, sources⟩ := group
  unfold State.matchNamed
  rw [(lockstep.agree now).binaryName]
  dsimp only at owned inside ⊢
  generalize compiled.members name = candidates at inside ⊢
  split
  · split
    · exact now
    · exact lockstep.noticeAt now (owned _ List.mem_cons_self) _
  · next only candidate =>
    have isInside := inside candidate (List.mem_singleton_self candidate)
    rw [lockstep.consumed now candidate.ref isInside]
    split
    · exact now
    · exact lockstep.record now (owned only (List.mem_singleton_self only)) isInside
  · split
    · exact now
    · exact foldl_tied _ now fun method member _ _ current =>
        lockstep.matchOverload current inside (owned method member)

theorem matchBySignature (now : tied one two)
    (inside : ∀ candidate ∈ (setting.pool.typeAt compiledType).methods, has candidate.ref)
    {method : Source.Handle .method} (owned : own method.ref) :
    tied (one.matchBySignature setting type compiledType method)
      (two.matchBySignature (setting.varied i lossy) type compiledType method) := by
  have agree := lockstep.agree now
  have same : one.signatureCounterpart? setting type compiledType method =
      two.signatureCounterpart? (setting.varied i lossy) type compiledType method := by
    unfold State.signatureCounterpart?
    dsimp only
    rw [agree.methodAt method owned, agree.binaryName, agree.paramTypes, agree.methodCandidates]
    apply List.find?_congr
    intro candidate member
    rw [lockstep.consumed now candidate.ref (inside candidate member)]
  unfold State.matchBySignature
  rw [lockstep.linked now method.ref owned, same]
  split
  · exact now
  · exact lockstep.recordSome now owned fun other found =>
      inside other (State.signatureCounterpart_open found).1

theorem matchInnerConstructor (now : tied one two) {constructors : List (Compiled.Handle .method)}
    (inside : ∀ candidate ∈ constructors, has candidate.ref) {method : Source.Handle .method}
    (owned : own method.ref) :
    tied (one.matchInnerConstructor setting compiledType constructors method)
      (two.matchInnerConstructor (setting.varied i lossy) compiledType constructors method) := by
  have same : one.innerConstructorCounterpart? setting compiledType constructors method =
      two.innerConstructorCounterpart? (setting.varied i lossy) compiledType constructors method := by
    unfold State.innerConstructorCounterpart?
    rw [(lockstep.agree now).paramTypes, lockstep.openOf now inside]
  unfold State.matchInnerConstructor
  rw [lockstep.linked now method.ref owned, same]
  split
  · exact now
  · exact lockstep.recordSome now owned fun other found =>
      inside other (State.innerConstructorCounterpart_open found).1

theorem noticeOpenMethod (now : tied one two)
    {compiled : Grouping String (Compiled.Handle .method)} {name : String}
    (inside : ∀ candidate ∈ compiled.members name, has candidate.ref)
    {method : Source.Handle .method} (owned : own method.ref) :
    tied (one.noticeOpenMethod type compiled name method)
      (two.noticeOpenMethod type compiled name method) := by
  have agree := lockstep.agree now
  unfold State.noticeOpenMethod
  rw [lockstep.linked now method.ref owned, agree.methodAt method owned, agree.binaryName,
    lockstep.openOf now inside]
  split
  · exact now
  · exact lockstep.noticeAt now owned _

theorem matchMethods (now : tied one two)
    (owned : ∀ method ∈ (one.file.typeAt type).methods, own method.ref)
    (inside : ∀ candidate ∈ (setting.pool.typeAt compiledType).methods, has candidate.ref) :
    tied (one.matchMethods setting type compiledType)
      (two.matchMethods (setting.varied i lossy) type compiledType) := by
  have agree := lockstep.agree now
  have candidates (name : String) :
      ∀ candidate ∈ (compiledMethodsByName setting.pool compiledType).members name,
        has candidate.ref := by
    intro candidate member
    rw [compiledMethodsByName, members_groupBy] at member
    exact inside candidate (List.mem_of_mem_filter (List.mem_of_mem_filter member))
  have sources : methodsByName one.file type = methodsByName two.file type := by
    unfold methodsByName
    rw [← agree.typeMethods]
    have kinds : ((one.file.typeAt type).methods.filter fun method =>
          (one.file.methodAt method).kind ≠ .instanceInitializer) =
        (one.file.typeAt type).methods.filter fun method =>
          (two.file.methodAt method).kind ≠ .instanceInitializer :=
      List.filter_congr fun method member => by rw [agree.methodAt method (owned method member)]
    rw [← kinds]
    apply groupBy_congr
    intro method member
    rw [agree.methodAt method (owned method (List.mem_of_mem_filter member))]
  have members {name : String} {methods : List (Source.Handle .method)}
      (member : (name, methods) ∈ methodsByName one.file type) :
      ∀ method ∈ methods, own method.ref := by
    obtain ⟨_, rfl⟩ := mem_groupBy.mp member
    exact fun method listed => owned method (List.mem_of_mem_filter (List.mem_of_mem_filter listed))
  have constructors : ∀ method ∈
      (methodsByName one.file type).members ReservedName.constructor, own method.ref := by
    intro method member
    rw [methodsByName, members_groupBy] at member
    exact owned method (List.mem_of_mem_filter (List.mem_of_mem_filter member))
  unfold State.matchMethods
  rw [← sources]
  dsimp only
  refine foldl_tied _ (foldl_tied _ (foldl_tied _ (foldl_tied _ now ?byName) ?bySignature)
    ?constructors) ?notices
  case byName =>
    exact fun group member _ _ current =>
      lockstep.matchNamed current (members member) (candidates group.1)
  case bySignature =>
    exact fun group member _ _ current => foldl_tied group.2 current fun method listed _ _ inner =>
      lockstep.matchBySignature inner inside (members (List.mem_of_mem_filter member) method listed)
  case constructors =>
    exact fun method member _ _ current =>
      lockstep.matchInnerConstructor current (candidates _) (constructors method member)
  case notices =>
    exact fun group member _ _ current => foldl_tied group.2 current fun method listed _ _ inner =>
      lockstep.noticeOpenMethod inner (candidates _)
        (members (List.mem_of_mem_filter member) method listed)

end Methods

end Lockstep

end Matching

end Correlate
