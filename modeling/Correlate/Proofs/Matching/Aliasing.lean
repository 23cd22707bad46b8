/-
Module: Correlate.Proofs.Matching.Aliasing
Purpose: Which aliases are noted while two bodies are matched.
Main exports: File.slotOf, State.Named, State.BaseNoted, State.mem_aliases_matchStatements
-/
import Correlate.Proofs.Matching.Additions
import Correlate.Proofs.Matching.BodyOrder

namespace Correlate.Source.File

/-- The slot that a variable stands for where a call is made on it in a matched method: the one it is
linked to, else one of the compiled method with the name of the variable. -/
def slotOf (file : File) (methodId : String) (base : Handle .variable) : String :=
  match file.link? base.ref with
  | some link => link.id
  | none => s!"{methodId}/{(file.variableAt base).name}"

end Correlate.Source.File

namespace Correlate.Matching.State

variable {setting : Setting} {state later final : State} {source : Source.Handle .method}
  {compiled : Compiled.Handle .method} {found : Alias}

/-! ### Variables -/

/-- A variable is linked on the way from one state to another, and this is the alias it gives. -/
def Named (state later : State) (found : Alias) : Prop :=
  ∃ (own : Source.Handle .variable) (link : Source.Link),
    state.file.isLinked own.ref = false ∧ later.file.link? own.ref = some link ∧
      found = ⟨link.id, (state.file.variableAt own).symbol⟩

theorem not_named_of_links (same : later.file.links = state.file.links) :
    ¬ Named state later found := by
  rintro ⟨own, link, unlinked, linked, _⟩
  rw [Source.File.link?, same] at linked
  exact Source.File.not_link_of_unlinked unlinked linked

theorem not_named_of_steps {permitted : Source.Ref → Compiled.Ref → Prop}
    (steps : LinkSteps setting permitted state later)
    (others : ∀ own other, permitted own other → own.kind ≠ .variable) :
    ¬ Named state later found := by
  rintro ⟨own, link, unlinked, linked, _⟩
  rcases steps.gains.link_new own.ref link linked with before | permission
  · exact Source.File.not_link_of_unlinked unlinked before
  · exact others _ _ permission rfl

/-- What is linked in the end is linked in one of two parts of the way. -/
theorem named_trans (first : state.file.Extends later.file) (second : later.file.Extends final.file) :
    Named state final found ↔ Named state later found ∨ Named later final found := by
  constructor
  · rintro ⟨own, link, unlinked, linked, rfl⟩
    cases there : later.file.isLinked own.ref with
    | true =>
        obtain ⟨before, isLink⟩ := Source.File.exists_link there
        obtain rfl := Option.some.inj ((second.links _ _ isLink).symm.trans linked)
        exact .inl ⟨own, before, unlinked, isLink, rfl⟩
    | false => exact .inr ⟨own, link, there, linked, by rw [first.variableAt]⟩
  · rintro (⟨own, link, unlinked, linked, rfl⟩ | ⟨own, link, unlinked, linked, rfl⟩)
    · exact ⟨own, link, unlinked, second.links _ _ linked, rfl⟩
    · refine ⟨own, link, ?_, linked, by rw [first.variableAt]⟩
      rw [Bool.eq_false_iff] at unlinked ⊢
      exact fun before => unlinked (first.isLinked before)

theorem matchVariable_file (pair : Source.Handle .variable × Compiled.Handle .variable) :
    (state.matchVariable setting pair).file =
      (state.record setting pair.1.ref pair.2.ref).file := by
  unfold matchVariable
  dsimp only
  split <;> rfl

/-- A variable gives an alias just when it is linked. -/
theorem mem_aliases_matchVariable (pair : Source.Handle .variable × Compiled.Handle .variable) :
    found ∈ (state.matchVariable setting pair).aliases ↔
      found ∈ state.aliases ∨ Named state (state.matchVariable setting pair) found := by
  have sameFile := @matchVariable_file setting state pair
  cases accepted : state.accepts pair.1.ref pair.2.ref with
  | false =>
      have sameAliases : (state.matchVariable setting pair).aliases = state.aliases := by
        unfold matchVariable
        simp [accepted]
      rw [sameAliases]
      refine (or_iff_left (not_named_of_links ?_)).symm
      rw [sameFile, record_of_rejected accepted]
      rfl
  | true =>
      have pushed : (state.matchVariable setting pair).aliases =
          state.aliases.push ⟨setting.pool.elementId pair.2.ref,
            (state.file.variableAt pair.1).symbol⟩ := by
        unfold matchVariable
        simp only [accepted, if_true, addAlias, record_aliases]
        rfl
      rw [pushed, Array.mem_push]
      refine or_congr_right ⟨?_, ?_⟩
      · rintro rfl
        refine ⟨pair.1, ⟨pair.2.ref, setting.pool.elementId pair.2.ref⟩,
          (accepts_iff.mp accepted).2, ?_, rfl⟩
        rw [sameFile, link_record accepted, if_pos rfl]
      · rintro ⟨own, link, unlinked, linked, rfl⟩
        rw [sameFile, link_record accepted] at linked
        split at linked
        · next isOwn =>
          obtain rfl := ref_injective isOwn
          obtain rfl := Option.some.inj linked
          rfl
        · exact absurd linked (Source.File.not_link_of_unlinked unlinked)

/-- Matching variables notes those that it links, each with the slot it is linked to. -/
theorem mem_aliases_matchVariables :
    found ∈ (state.matchVariables setting source compiled).aliases ↔
      found ∈ state.aliases ∨ Named state (state.matchVariables setting source compiled) found := by
  unfold matchVariables
  generalize state.variablePairs setting source compiled = pairs
  induction pairs generalizing state with
  | nil => exact (or_iff_left (not_named_of_links rfl)).symm
  | cons pair rest inductionHypothesis =>
      have first : state.file.Extends (state.matchVariable setting pair).file := by
        rw [matchVariable_file]
        exact record_extends setting state _ _
      have others : (state.matchVariable setting pair).file.Extends
          (rest.foldl (matchVariable setting) (state.matchVariable setting pair)).file :=
        (Adds.foldl fun next _ _ _ => matchVariable_adds (fun _ _ => trivial) next).extended
      rw [List.foldl_cons, inductionHypothesis, mem_aliases_matchVariable, named_trans first others,
        or_assoc]

/-! ### Bases of calls -/

/-- The alias is that of the variable that a linked call of a list is made on. -/
def BaseNoted (pool : Compiled.Pool) (compiled : Compiled.Handle .method) (file : Source.File)
    (calls : List (Source.Handle .invocation)) (found : Alias) : Prop :=
  ∃ call ∈ calls, ∃ base, (file.invocationAt call).base = some base ∧
    file.isLinked call.ref = true ∧
      found = ⟨file.slotOf (pool.methodAt compiled).id base, (file.variableAt base).symbol⟩

/-- Only the links of variables and calls matter. -/
theorem baseNoted_of_relinked {pool : Compiled.Pool} {file after : Source.File}
    {calls : List (Source.Handle .invocation)} (same : file.Relinked after)
    (variablesKept : ∀ own : Source.Handle .variable, after.link? own.ref = file.link? own.ref)
    (callsKept : ∀ call : Source.Handle .invocation, after.link? call.ref = file.link? call.ref) :
    BaseNoted pool compiled after calls found ↔ BaseNoted pool compiled file calls found := by
  obtain ⟨links, rfl⟩ := same
  unfold BaseNoted Source.File.slotOf Source.File.isLinked
  simp only [variablesKept, callsKept]
  exact Iff.rfl

theorem aliasCallBase_file (call : Source.Handle .invocation) :
    (state.aliasCallBase setting compiled call).file = state.file := by
  unfold aliasCallBase
  split
  · split <;> rfl
  · rfl

theorem mem_aliases_aliasCallBase (call : Source.Handle .invocation) :
    found ∈ (state.aliasCallBase setting compiled call).aliases ↔
      found ∈ state.aliases ∨ BaseNoted setting.pool compiled state.file [call] found := by
  unfold aliasCallBase
  split
  · next base isBase =>
    split
    · next linked =>
      rw [addAlias, Array.mem_push]
      refine or_congr_right ⟨?_, ?_⟩
      · rintro rfl
        exact ⟨call, List.mem_singleton_self call, base, isBase, linked, rfl⟩
      · rintro ⟨_, isCall, other, isOther, _, rfl⟩
        obtain rfl := List.mem_singleton.mp isCall
        obtain rfl := Option.some.inj (isBase.symm.trans isOther)
        rfl
    · next unlinked =>
      refine (or_iff_left ?_).symm
      rintro ⟨_, isCall, _, _, linked, _⟩
      rw [List.mem_singleton.mp isCall] at linked
      exact unlinked linked
  · next noBase =>
    refine (or_iff_left ?_).symm
    rintro ⟨_, isCall, _, isBase, _⟩
    rw [List.mem_singleton.mp isCall, noBase] at isBase
    cases isBase

theorem baseNoted_cons {pool : Compiled.Pool} {file : Source.File}
    {call : Source.Handle .invocation} {rest : List (Source.Handle .invocation)} :
    BaseNoted pool compiled file (call :: rest) found ↔
      BaseNoted pool compiled file [call] found ∨ BaseNoted pool compiled file rest found := by
  simp [BaseNoted]

theorem aliasCallBases_file :
    (state.aliasCallBases setting source compiled).file = state.file := by
  unfold aliasCallBases
  generalize (state.file.methodAt source).invocations = calls
  induction calls generalizing state with
  | nil => rfl
  | cons call rest inductionHypothesis =>
      exact inductionHypothesis.trans (aliasCallBase_file call)

/-- The bases of all linked calls of the method are noted. -/
theorem mem_aliases_aliasCallBases :
    found ∈ (state.aliasCallBases setting source compiled).aliases ↔
      found ∈ state.aliases ∨ BaseNoted setting.pool compiled state.file
        (state.file.methodAt source).invocations found := by
  unfold aliasCallBases
  generalize (state.file.methodAt source).invocations = calls
  induction calls generalizing state with
  | nil => exact (or_iff_left fun noted => nomatch noted).symm
  | cons call rest inductionHypothesis =>
      rw [List.foldl_cons, inductionHypothesis, mem_aliases_aliasCallBase, aliasCallBase_file,
        or_assoc, ← baseNoted_cons]

/-! ### Two bodies -/

/-- The passes that note no aliases. -/
def quietPasses : List BodyPass :=
  [.allocations, .accesses, .casts, .references]

theorem kind_of_quiet {pass : BodyPass} (isQuiet : pass ∈ quietPasses) :
    (pass ≠ .vars ∧ pass ≠ .calls) ∧ pass.kind ≠ .variable ∧ pass.kind ≠ .invocation ∧
      pass.compiledKind ≠ .variable ∧ pass.compiledKind ≠ .invocation := by
  revert pass
  decide

/-- The quiet passes link neither variables nor calls. -/
theorem foldl_quietPasses (formed : state.file.WellFormed) (poolFormed : setting.pool.WellFormed)
    (clear : ∀ pass ∈ quietPasses, pass.Open setting source compiled state.file state) :
    let final := quietPasses.foldl (BodyPass.run setting source compiled) state
    LinkSteps setting (fun own _ => own.kind ≠ .variable ∧ own.kind ≠ .invocation) state final ∧
      final.aliases = state.aliases := by
  obtain ⟨steps, _⟩ := BodyPass.foldl_run_links (by decide) formed poolFormed clear
  constructor
  · apply steps.mono
    rintro own other ⟨pass, isQuiet, isKind, _⟩
    rw [isKind]
    exact ⟨(kind_of_quiet isQuiet).2.1, (kind_of_quiet isQuiet).2.2.1⟩
  · refine (@AddsUnaliased.foldl (fun _ => True) _ _ _ _ fun pass isQuiet current => ?_).aliases
    obtain ⟨⟨noVariables, noCalls⟩, _⟩ := kind_of_quiet isQuiet
    exact runPass_addsUnaliased (fun _ _ => trivial) pass noVariables noCalls

/-- Matching calls and then their bases notes the bases of the calls that are linked in the end. -/
theorem mem_aliases_run_calls (same : state.file.Relinked
      (BodyPass.run setting source compiled state .calls).file) :
    found ∈ (BodyPass.run setting source compiled state .calls).aliases ↔
      found ∈ state.aliases ∨
        BaseNoted setting.pool compiled (BodyPass.run setting source compiled state .calls).file
          (state.file.methodAt source).invocations found := by
  have isFile : (BodyPass.run setting source compiled state .calls).file =
      (state.matchCalls setting source compiled).file := aliasCallBases_file
  have kept : (state.matchCalls setting source compiled).aliases = state.aliases :=
    (@matchCalls_adds (fun _ => True) setting state source compiled fun _ _ => trivial).aliases
  rw [isFile] at same ⊢
  rw [BodyPass.run, mem_aliases_aliasCallBases, kept, same.methodAt]

/-- Passes over the statements of two bodies, all elements of which are open. -/
theorem mem_aliases_foldl_run (formed : state.file.WellFormed)
    (poolFormed : setting.pool.WellFormed)
    (clear : ∀ pass : BodyPass, pass.Open setting source compiled state.file state) :
    let final := BodyPass.all.foldl (BodyPass.run setting source compiled) state
    found ∈ final.aliases ↔
      found ∈ state.aliases ∨ Named state final found ∨
        BaseNoted setting.pool compiled final.file (state.file.methodAt source).invocations
          found := by
  -- Variables
  obtain ⟨naming, _⟩ := BodyPass.run_links formed poolFormed (clear .vars)
  have namedAliases := @mem_aliases_matchVariables setting state source compiled found
  change found ∈ (BodyPass.run setting source compiled state .vars).aliases ↔
    found ∈ state.aliases ∨
      Named state (BodyPass.run setting source compiled state .vars) found at namedAliases
  have split : BodyPass.all.foldl (BodyPass.run setting source compiled) state =
      quietPasses.foldl (BodyPass.run setting source compiled)
        (BodyPass.run setting source compiled
          (BodyPass.run setting source compiled state .vars) .calls) := by
    simp only [BodyPass.all, quietPasses, List.foldl_cons, List.foldl_nil]
  rw [split]
  generalize BodyPass.run setting source compiled state .vars = named at naming namedAliases ⊢
  have namedFormed := BodyPass.wellFormed_of_links formed naming
    fun own other fits => (fits.2.2.owner formed).1
  have namedClear (pass : BodyPass) (otherKind : pass.kind ≠ .variable)
      (otherCompiledKind : pass.compiledKind ≠ .variable) :
      pass.Open setting source compiled named.file named :=
    (clear pass).after naming fun own other fits =>
      ⟨fits.1 ▸ otherKind.symm, fits.2.1 ▸ otherCompiledKind.symm⟩
  -- Calls
  obtain ⟨calling, _⟩ := BodyPass.run_links namedFormed poolFormed
    (namedClear .calls (by decide) (by decide))
  have calledAliases := @mem_aliases_run_calls setting named source compiled found
    calling.gains.relinked
  generalize BodyPass.run setting source compiled named .calls = called at calling calledAliases ⊢
  have calledFormed := BodyPass.wellFormed_of_links namedFormed calling
    fun own other fits => (fits.2.2.owner namedFormed).1
  -- The rest
  obtain ⟨resting, restAliases⟩ := @foldl_quietPasses setting called source compiled calledFormed
    poolFormed fun pass isQuiet => by
      obtain ⟨_, noVariable, noCall, noSlot, noCompiledCall⟩ := kind_of_quiet isQuiet
      exact (namedClear pass noVariable noSlot).after calling fun own other fits =>
        ⟨fits.1 ▸ noCall.symm, fits.2.1 ▸ noCompiledCall.symm⟩
  generalize quietPasses.foldl (BodyPass.run setting source compiled) called = final
    at resting restAliases ⊢
  dsimp only
  rw [restAliases, calledAliases, namedAliases, naming.gains.relinked.methodAt, or_assoc]
  have later : LinkSteps setting (fun own _ => own.kind ≠ .variable) named final := by
    refine (calling.mono fun own other fits => ?_).trans (resting.mono fun own other kind => kind.1)
    rw [fits.1]
    decide
  refine or_congr_right (or_congr ?_ (Iff.symm ?_))
  · rw [named_trans naming.gains.grows.extended later.gains.grows.extended]
    exact (or_iff_left (not_named_of_steps later fun own other different => different)).symm
  · apply baseNoted_of_relinked resting.gains.relinked
    · exact fun own => resting.gains.link_eq fun other kind => kind.1 rfl
    · exact fun call => resting.gains.link_eq fun other kind => kind.2 rfl

/-- Matching the statements of two untouched bodies notes the variables that it links, and the bases of
the calls that are linked in the end. -/
theorem mem_aliases_matchStatements (formed : state.file.WellFormed)
    (poolFormed : setting.pool.WellFormed) (untouched : state.file.Untouched source)
    (opened : ∀ other, setting.pool.owningMethod? other = some compiled →
      state.isConsumed other = false) :
    let final := state.matchStatements setting source compiled
    found ∈ final.aliases ↔
      found ∈ state.aliases ∨ Named state final found ∨
        BaseNoted setting.pool compiled final.file (state.file.methodAt source).invocations
          found := by
  rw [matchStatements_eq]
  exact @mem_aliases_foldl_run setting (state.addPair (source, compiled)) source compiled found
    formed poolFormed fun pass => ⟨fun own _ => untouched own, fun other _ => opened other⟩

end Correlate.Matching.State
