/-
Module: Correlate.Proofs.LocalCopies
Purpose: Which source parameters the copies of compiled parameters reveal.
Main exports: revealed?, CopiesAgree, run_copies, run_copies_unmatched
-/
import Correlate.Proofs.Compatibility
import Correlate.Proofs.Compiled.VariableIds
import Correlate.Proofs.Source.Elements

namespace Correlate.Matching

/-!
Matching pairs the parameters of two methods, and the facts about a method say which variables its
parameters are copied to.  Both skip the values that compilation puts in front.  They agree on which
source parameter a compiled one is, as long as the compiled method has no fewer parameters than the
source method: then nothing is paired, but the copies still count from the first parameter.
-/

/-! ### Paired parameters -/

/-- Where there is room, a parameter is paired with the compiled one at its place, counted after the
values in front. -/
theorem State.param_mem_variablePairs {setting : Setting} {state : State}
    {source : Source.Handle .method} {compiled : Compiled.Handle .method}
    (room : (state.file.methodAt source).params.length ≤
      (setting.pool.methodAt compiled).params.length)
    {n : Nat} {own : Source.Handle .variable} {other : Compiled.Handle .variable}
    (isParam : (state.file.methodAt source).params[n]? = some own)
    (isCompiled : (setting.pool.methodAt compiled).params[n +
      ((setting.pool.methodAt compiled).params.length -
        (state.file.methodAt source).params.length)]? = some other) :
    (own, other) ∈ state.variablePairs setting source compiled := by
  unfold variablePairs
  refine List.mem_append_right _ ?_
  rw [if_pos room]
  refine List.mem_of_getElem? (List.getElem?_zip_eq_some.mpr ⟨isParam, ?_⟩)
  rw [List.getElem?_drop, Nat.add_comm]
  exact isCompiled

section Parameters

variable {plan : Plan} {files : List Source.File} {outcome : Outcome} {i : Nat} {start final : State}

/-- Where there is room, every parameter is linked to the compiled one at its place. -/
theorem Turn.param_linked (turn : Turn plan files outcome i start final)
    {source : Source.Handle .method} {compiled : Compiled.Handle .method}
    (linked : final.file.linkedMethod? source = some compiled)
    (shallow : final.file.nestingDepth source ≤ maxLambdaNesting)
    (room : (final.file.methodAt source).params.length ≤ (plan.pool.methodAt compiled).params.length)
    {n : Nat} {own : Source.Handle .variable} {other : Compiled.Handle .variable}
    (isParam : (final.file.methodAt source).params[n]? = some own)
    (isCompiled : (plan.pool.methodAt compiled).params[n +
      ((plan.pool.methodAt compiled).params.length -
        (final.file.methodAt source).params.length)]? = some other) :
    final.file.link? own.ref = some ⟨other.ref, plan.pool.elementId other.ref⟩ := by
  obtain ⟨_, visited, _⟩ := turn.explores
  obtain ⟨entry, before, _, _, after, entered⟩ := (visited source compiled linked).entered turn.sound
  have extended := (after.grows (before.sound turn.sound)).extended
  have same : (final.file.methodAt source).params = (entry.file.methodAt source).params :=
    extended.readMethod Source.Method.params (fun _ _ _ => rfl) source
  rw [same] at room isParam isCompiled
  rcases entered with ⟨settled, _⟩ | ⟨deep, _⟩
  · exact settled .vars (own, other) (State.param_mem_variablePairs room isParam isCompiled)
  · rw [extended.nestingDepth] at shallow
    omega

end Parameters

/-! ### Copies -/

/-- The source variable whose symbol a copy in a matched method gives to the slot it ends in. -/
def revealed? (pool : Compiled.Pool) (file : Source.File) (source : Source.Handle .method)
    (compiled : Compiled.Handle .method) (copy : LocalCopy) : Option (Source.Handle .variable) :=
  copiedVariable? (file.methodAt source)
    ((pool.methodAt compiled).params.length - (file.methodAt source).params.length) copy

section Copies

variable {pool : Compiled.Pool} {facts : Facts} {file : Source.File}
  {source : Source.Handle .method} {compiled : Compiled.Handle .method} {copy : LocalCopy}

/-- The aliases of the copies of a method, row by row. -/
theorem copyAliases_eq (linked : file.linkedMethod? source = some compiled) :
    copyAliases pool facts file source =
      (facts.copiesIn (pool.methodAt compiled).id).filterMap fun copy =>
        (revealed? pool file source compiled copy).map fun own =>
          ⟨copy.target, (file.variableAt own).symbol⟩ := by
  rw [copyAliases, linked]
  refine List.filterMap_congr fun copy _ => ?_
  rw [revealed?]
  cases copiedVariable? (file.methodAt source) _ copy <;> rfl

/-- A copy of a parameter reveals the source parameter with its number, after the values in front. -/
theorem revealed?_param {number : Nat} (bounded : number < Text.wordLimit)
    (copied : copy.source = (MethodSlot.parameter number).variableId (pool.methodAt compiled).id) :
    revealed? pool file source compiled copy =
      let captured := (pool.methodAt compiled).params.length - (file.methodAt source).params.length
      if captured ≤ number then (file.methodAt source).params[number - captured]? else none := by
  have decoded : MethodSlot.ofVariableId? copy.source = some (.parameter number) := by
    rw [copied]
    exact Compiled.ofVariableId?_variableId.mpr ⟨rfl, bounded⟩
  rw [revealed?, copiedVariable?, decoded]

end Copies

/-- What the copies of a compiled method reveal of the source method it is matched to.  A copy of a
parameter reveals the source parameter that is linked to it; where the compiled method has fewer
parameters than the source method, it reveals the one with the same number. -/
structure CopiesAgree (plan : Plan) (facts : Facts) (file : Source.File)
    (source : Source.Handle .method) (compiled : Compiled.Handle .method) : Prop where
  listed : copyAliases plan.pool facts file source =
    (facts.copiesIn (plan.pool.methodAt compiled).id).filterMap fun copy =>
      (revealed? plan.pool file source compiled copy).map fun own =>
        ⟨copy.target, (file.variableAt own).symbol⟩
  params : ∀ copy ∈ facts.copiesIn (plan.pool.methodAt compiled).id, ∀ number other,
    (plan.pool.methodAt compiled).params[number]? = some other → number < Text.wordLimit →
    copy.source = (MethodSlot.parameter number).variableId (plan.pool.methodAt compiled).id →
    ∀ own, revealed? plan.pool file source compiled copy = some own ↔
      (own ∈ (file.methodAt source).params ∧
        file.link? own.ref = some ⟨other.ref, plan.pool.elementId other.ref⟩) ∨
      ((plan.pool.methodAt compiled).params.length < (file.methodAt source).params.length ∧
        (file.methodAt source).params[number]? = some own)

variable {plan : Plan} {files : List Source.File}

/-- The aliases that the copies of a method reveal are among those of the run. -/
theorem copyAliases_noted {facts : Facts} (known : plan.facts = some facts) {file : Source.File}
    (member : file ∈ (run plan files).files) {source : Source.Handle .method}
    (isKnown : source.index < file.methods.size) :
    ∀ found ∈ copyAliases plan.pool facts file source, found ∈ (run plan files).ledger.aliases := by
  intro found isRevealed
  have isMethod : source ∈ file.methodHandles false ++ file.methodHandles true := by
    rw [List.mem_append, Source.File.mem_methodHandles, Source.File.mem_methodHandles]
    by_cases isLambda : (file.methodAt source).kind = .lambda <;> simp [isKnown, isLambda]
  have inFile : found ∈ factAliases plan.pool facts file := by
    refine List.mem_append_left _ (List.mem_append_left _ ?_)
    exact List.mem_flatMap.mpr ⟨source, isMethod, isRevealed⟩
  have inRun : found ∈ revealedAliases plan (run plan files).files := by
    rw [revealedAliases, known]
    exact List.mem_flatMap.mpr ⟨file, member, inFile⟩
  rw [run, Array.mem_def, Array.toList_appendList]
  exact List.mem_append_right _ inRun

/-- A parameter that is linked to a compiled one is at its place, counted after the values in front. -/
theorem Fitted.param_place {i : Nat} {file : Source.File} (fitted : Fitted (plan.setting i) file)
    (poolFormed : plan.pool.WellFormed) {source : Source.Handle .method}
    {compiled : Compiled.Handle .method} (linked : file.linkedMethod? source = some compiled)
    {number : Nat} {own : Source.Handle .variable} {other : Compiled.Handle .variable}
    (isCompiled : (plan.pool.methodAt compiled).params[number]? = some other)
    (isParam : own ∈ (file.methodAt source).params)
    (isLinked : file.link? own.ref = some ⟨other.ref, plan.pool.elementId other.ref⟩) :
    ∃ n, (file.methodAt source).params[n]? = some own ∧
      (file.methodAt source).params.length ≤ (plan.pool.methodAt compiled).params.length ∧
      n + ((plan.pool.methodAt compiled).params.length -
        (file.methodAt source).params.length) = number := by
  obtain ⟨n, atPlace⟩ := List.mem_iff_getElem?.mp isParam
  obtain ⟨compiled', other', linked', same, room, isOther⟩ :=
    fitted.compatible.params source n own _ atPlace isLinked
  obtain rfl := Option.some.inj (linked'.symm.trans linked)
  obtain rfl := compiledRef_injective same
  refine ⟨n, atPlace, room, ?_⟩
  have params_nodup : (plan.pool.methodAt compiled').params.Nodup :=
    (List.nodup_append.mp ((poolFormed.list_nodup .slot compiled').of_map _)).2.1
  exact (List.getElem?_inj (List.getElem?_eq_some_iff.mp isOther).1 params_nodup).mp
    (isOther.trans isCompiled.symm)

/-- Copies of parameters reveal those that are linked to them, at the end of the turn of a file. -/
theorem Turn.copiesAgree {facts : Facts} {outcome : Outcome} {i : Nat} {start final : State}
    (turn : Turn plan files outcome i start final) (fitted : Fitted (plan.setting i) final.file)
    (poolFormed : plan.pool.WellFormed) {source : Source.Handle .method}
    {compiled : Compiled.Handle .method}
    (linked : final.file.linkedMethod? source = some compiled)
    (shallow : final.file.nestingDepth source ≤ maxLambdaNesting) :
    CopiesAgree plan facts final.file source compiled := by
  refine ⟨copyAliases_eq linked, fun copy _ number other isCompiled bounded copied own => ?_⟩
  rw [revealed?_param bounded copied]
  dsimp only
  rcases Nat.lt_or_ge (plan.pool.methodAt compiled).params.length
    (final.file.methodAt source).params.length with few | room
  · -- No parameter is linked, and nothing is subtracted from the number.
    rw [Nat.sub_eq_zero_of_le (Nat.le_of_lt few), if_pos (Nat.zero_le _), Nat.sub_zero]
    refine ⟨fun isParam => .inr ⟨few, isParam⟩, ?_⟩
    rintro (⟨isParam, isLinked⟩ | ⟨_, isParam⟩)
    · obtain ⟨_, _, room, _⟩ := fitted.param_place poolFormed linked isCompiled isParam isLinked
      exact absurd few (Nat.not_lt_of_le room)
    · exact isParam
  · constructor
    · intro revealed
      split at revealed
      · next reached =>
        refine .inl ⟨List.mem_of_getElem? revealed, turn.param_linked linked shallow room revealed ?_⟩
        rw [Nat.sub_add_cancel reached]
        exact isCompiled
      · cases revealed
    · rintro (⟨isParam, isLinked⟩ | ⟨few, _⟩)
      · obtain ⟨n, atPlace, _, sum⟩ :=
          fitted.param_place poolFormed linked isCompiled isParam isLinked
        rw [if_pos (by omega), ← sum, Nat.add_sub_cancel]
        exact atPlace
      · exact absurd few (Nat.not_lt_of_le room)

/-- With facts, a run reveals the source parameters that are linked to the compiled parameters that a
matched method copies. -/
theorem run_copies {facts : Facts} (known : plan.facts = some facts) (built : plan.pool.IsBuilt)
    (reachable : ∀ file ∈ files, file.Reachable)
    (unlinked : ∀ file ∈ files, ∀ element, file.isLinked element = false) :
    ∀ file ∈ (run plan files).files, ∀ source compiled,
      file.linkedMethod? source = some compiled → file.nestingDepth source ≤ maxLambdaNesting →
        CopiesAgree plan facts file source compiled ∧
          ∀ found ∈ copyAliases plan.pool facts file source,
            found ∈ (run plan files).ledger.aliases := by
  intro file member source compiled linked shallow
  have sound := run_sound built reachable unlinked
  obtain ⟨i, found⟩ := List.mem_iff_getElem?.mp member
  have fitted := sound.fitted i file member
  obtain ⟨start, final, turn, rfl⟩ := sound.turn_of_final found
  refine ⟨turn.copiesAgree fitted built.wellFormed linked shallow, copyAliases_noted known member ?_⟩
  obtain ⟨_, isLink⟩ := Source.File.linkedMethod_iff.mp linked
  exact fitted.formed.linked _ (Source.File.isLinked_of_link isLink)

/-! ### A value in front, and a parameter that is missing -/

/-- A method with compiled parameters, and what is known of its copies. -/
def copyPlan (params : List String) (facts : Facts) : Plan :=
  let steps : List Compiled.Step :=
    [.type "p.A", .method ⟨0⟩ { name := "f", params, returnType := "void" } {}]
  { pool := (({} : Compiled.Builder).performAll steps).1.finish.pool, facts := some facts }

/-- The source of a method with one parameter. -/
def shortFile : Source.File :=
  ({ path := "p/A.src.json", package := "p" } : Source.File).performAll
    [.type "A" none none, .method ⟨0⟩ "f" none false none, .param ⟨1⟩ "a" (some "int") none]

/-- The source of a method with two parameters. -/
def longFile : Source.File :=
  shortFile.performAll [.param ⟨1⟩ "b" (some "int") none]

theorem copyPlan_isBuilt (params : List String) (facts : Facts) :
    (copyPlan params facts).pool.IsBuilt := by
  refine ⟨_, Compiled.Builder.Reachable.empty.performAll ?admitted, rfl⟩
  exact ⟨trivial, Nat.zero_lt_one, trivial⟩

theorem shortFile_reachable : ∀ file ∈ [shortFile], file.Reachable := by
  refine List.forall_mem_singleton.mpr ?_
  refine (Source.File.Reachable.empty "p/A.src.json" "p").performAll ?admitted
  exact ⟨nofun, Nat.zero_lt_one, Nat.one_lt_two, trivial⟩

theorem longFile_reachable : ∀ file ∈ [longFile], file.Reachable := by
  refine List.forall_mem_singleton.mpr ?_
  exact (List.forall_mem_singleton.mp shortFile_reachable).performAll ⟨Nat.one_lt_two, trivial⟩

theorem shortFile_unlinked : ∀ file ∈ [shortFile], ∀ element, file.isLinked element = false :=
  List.forall_mem_singleton.mpr fun _ => rfl

theorem longFile_unlinked : ∀ file ∈ [longFile], ∀ element, file.isLinked element = false :=
  List.forall_mem_singleton.mpr fun _ => rfl

/-- A value in front of the parameter that is copied. -/
def wideFacts : Facts :=
  ({} : Facts).addText .localCopy ("x\tx\t<p.A: void f(int,int)>/@parameter1\t" ++
    "<p.A: void f(int,int)>/l\t<p.A: void f(int,int)>")

/-- The only parameter is copied. -/
def narrowFacts : Facts :=
  ({} : Facts).addText .localCopy
    "x\tx\t<p.A: void f(int)>/@parameter0\t<p.A: void f(int)>/l\t<p.A: void f(int)>"

def widePlan : Plan :=
  copyPlan ["int", "int"] wideFacts

def narrowPlan : Plan :=
  copyPlan ["int"] narrowFacts

def wideResult : Source.File :=
  (run widePlan [shortFile]).files.headD default

def narrowResult : Source.File :=
  (run narrowPlan [longFile]).files.headD default

theorem run_copies_wide : copyAliases widePlan.pool wideFacts wideResult ⟨1⟩ =
      [⟨"<p.A: void f(int,int)>/l", "p.A.f/a"⟩] ∧
    CopiesAgree widePlan wideFacts wideResult ⟨1⟩ ⟨0⟩ ∧
    ∀ found ∈ copyAliases widePlan.pool wideFacts wideResult ⟨1⟩,
      found ∈ (run widePlan [shortFile]).ledger.aliases := by
  refine ⟨by decide +kernel, ?_⟩
  exact run_copies rfl (copyPlan_isBuilt _ _) shortFile_reachable shortFile_unlinked wideResult
    (headD_mem_run (copyPlan_isBuilt _ _) shortFile_reachable shortFile_unlinked) ⟨1⟩ ⟨0⟩
    (by decide +kernel) (by decide +kernel)

/-- Where the compiled method has fewer parameters than the source method, none of them is linked, and
yet a copy reveals one. -/
theorem run_copies_unmatched :
    narrowPlan.pool.IsBuilt ∧ (∀ file ∈ [longFile], file.Reachable) ∧
      (∀ file ∈ [longFile], ∀ element, file.isLinked element = false) ∧
      narrowResult ∈ (run narrowPlan [longFile]).files ∧
      narrowResult.linkedMethod? ⟨1⟩ = some ⟨0⟩ ∧
      narrowResult.nestingDepth ⟨1⟩ ≤ maxLambdaNesting ∧
      (narrowPlan.pool.methodAt ⟨0⟩).params[0]? = some ⟨1⟩ ∧
      narrowFacts.copiesIn (narrowPlan.pool.methodAt ⟨0⟩).id =
        [⟨(MethodSlot.parameter 0).variableId (narrowPlan.pool.methodAt ⟨0⟩).id,
          "<p.A: void f(int)>/l"⟩] ∧
      (∀ own ∈ (narrowResult.methodAt ⟨1⟩).params, narrowResult.isLinked own.ref = false) ∧
      copyAliases narrowPlan.pool narrowFacts narrowResult ⟨1⟩ =
        [⟨"<p.A: void f(int)>/l", "p.A.f/a"⟩] ∧
      ⟨"<p.A: void f(int)>/l", "p.A.f/a"⟩ ∈ (run narrowPlan [longFile]).ledger.aliases := by
  refine ⟨copyPlan_isBuilt _ _, longFile_reachable, longFile_unlinked,
    headD_mem_run (copyPlan_isBuilt _ _) longFile_reachable longFile_unlinked, ?_⟩
  decide +kernel

end Correlate.Matching
