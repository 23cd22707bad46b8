/-
Module: Correlate.Proofs.Matching.Exploration
Purpose: The bodies of matched methods are entered once, when nothing in them is matched yet.
Main exports: Visited, Collects, Excursion, State.matchLambdas_excursion,
  State.matchBody_explores
-/
import Correlate.Proofs.Matching.Passes

namespace Correlate.Matching

/-!
Every method that is linked on the way has its body entered, while nothing in that is linked, and is
remembered for what is done after the bodies.
-/

/-! ### Visits -/

/-- The body of a method was entered while nothing in it was linked. -/
def Visited (setting : Setting) (start final : State) (source : Source.Handle .method)
    (compiled : Compiled.Handle .method) : Prop :=
  ∃ entry, Steps setting anyElement start entry ∧
    entry.file.linkedMethod? source = some compiled ∧ entry.file.Untouched source ∧
    Steps setting anyElement
      (entry.matchBody setting (maxLambdaNesting + 1 - entry.file.nestingDepth source) source
        compiled) final

theorem Visited.later {setting : Setting} {start state final : State}
    {source : Source.Handle .method} {compiled : Compiled.Handle .method}
    (visited : Visited setting start state source compiled)
    (steps : Steps setting anyElement state final) :
    Visited setting start final source compiled := by
  obtain ⟨entry, before, linked, untouched, after⟩ := visited
  exact ⟨entry, before, linked, untouched, after.trans steps⟩

/-- The body of every method that is linked on the way is entered. -/
def Explores (setting : Setting) (start state later : State) : Prop :=
  ∀ source compiled, later.file.linkedMethod? source = some compiled →
    state.file.linkedMethod? source = some compiled ∨ Visited setting start later source compiled

namespace Explores

variable {setting : Setting} {start state later final : State}

theorem trans (first : Explores setting start state later)
    (second : Explores setting start later final) (steps : Steps setting anyElement later final) :
    Explores setting start state final := by
  intro source compiled linked
  rcases second source compiled linked with before | visited
  · exact (first source compiled before).imp_right fun visited => visited.later steps
  · exact .inr visited

/-- Steps that link no methods. -/
theorem of_steps {allowed : Source.Ref → Prop} (steps : Steps setting allowed state later)
    (noMethods : ∀ own, allowed own → own.kind ≠ .method) : Explores setting start state later := by
  intro source compiled linked
  obtain ⟨id, found⟩ := Source.File.linkedMethod_iff.mp linked
  rcases steps.link_new _ _ found with before | permitted
  · exact .inl (Source.File.linkedMethod_iff.mpr ⟨id, before⟩)
  · exact absurd rfl (noMethods _ permitted)

end Explores

/-- The methods whose bodies are matched on the way are remembered: all that are linked on the way,
unless they are nested too deeply. -/
structure Collects (state later : State) : Prop where
  kept : ∀ pair ∈ state.pairs, pair ∈ later.pairs
  shallow : (∀ pair ∈ state.pairs, state.file.nestingDepth pair.1 ≤ maxLambdaNesting) →
    ∀ pair ∈ later.pairs, later.file.nestingDepth pair.1 ≤ maxLambdaNesting
  gathered : ∀ source compiled, later.file.linkedMethod? source = some compiled →
    later.file.nestingDepth source ≤ maxLambdaNesting →
    state.file.linkedMethod? source = some compiled ∨ (source, compiled) ∈ later.pairs

namespace Collects

variable {state later final : State}

/-- Nothing is remembered where no method is linked. -/
theorem of_pairs_eq (same : state.file.Relinked later.file) (pairs_kept : later.pairs = state.pairs)
    (methods_kept : ∀ source compiled, later.file.linkedMethod? source = some compiled →
      state.file.linkedMethod? source = some compiled) : Collects state later where
  kept pair member := pairs_kept ▸ member
  shallow before pair member := by
    rw [same.nestingDepth]
    exact before pair (pairs_kept ▸ member)
  gathered source compiled linked _ := .inl (methods_kept source compiled linked)

theorem refl (state : State) : Collects state state :=
  of_pairs_eq (.refl _) rfl fun _ _ => id

theorem trans (first : Collects state later) (second : Collects later final)
    (same : later.file.Relinked final.file) : Collects state final where
  kept pair member := second.kept pair (first.kept pair member)
  shallow before := second.shallow (first.shallow before)
  gathered source compiled linked depth := by
    rcases second.gathered source compiled linked depth with before | member
    · rw [same.nestingDepth] at depth
      exact (first.gathered source compiled before depth).imp_right (second.kept _)
    · exact .inr member

end Collects

/-- Steps through bodies.  The file keeps its elements. -/
structure Excursion (setting : Setting) (start : State) (allowed : Source.Ref → Prop)
    (state later : State) : Prop where
  steps : Steps setting allowed state later
  passes : Passes setting state later
  relinked : state.file.Relinked later.file
  explores : Explores setting start state later
  collects : Collects state later

namespace Excursion

variable {setting : Setting} {start state later final : State} {allowed : Source.Ref → Prop}

theorem refl (state : State) : Excursion setting start allowed state state :=
  ⟨.refl, .refl, .refl _, fun _ _ => .inl, .refl _⟩

theorem trans (first : Excursion setting start allowed state later)
    (second : Excursion setting start allowed later final) :
    Excursion setting start allowed state final where
  steps := first.steps.trans second.steps
  passes := first.passes.trans second.passes
  relinked := first.relinked.trans second.relinked
  explores := first.explores.trans second.explores second.steps.any
  collects := first.collects.trans second.collects second.relinked

theorem mono {permitted : Source.Ref → Prop} (weaker : ∀ own, allowed own → permitted own)
    (excursion : Excursion setting start allowed state later) :
    Excursion setting start permitted state later :=
  { excursion with steps := excursion.steps.mono weaker }

/-- What leaves the file as it is. -/
theorem of_same (steps : Steps setting (fun _ => False) state later)
    (passes : Passes setting state later) (file_kept : later.file = state.file)
    (pairs_kept : later.pairs = state.pairs) : Excursion setting start allowed state later := by
  have relinked : state.file.Relinked later.file := file_kept ▸ .refl _
  refine ⟨steps.mono fun _ => False.elim, passes, relinked, .of_steps steps fun _ => False.elim,
    .of_pairs_eq relinked pairs_kept ?_⟩
  rw [file_kept]
  exact fun _ _ => id

theorem note (line : Option Nat) {finding : Finding} (fresh : finding.kind ≠ .redundantMatch) :
    Excursion setting start allowed state (state.notice line finding) :=
  of_same (.single (.note line fresh)) (.note line fresh) rfl rfl

end Excursion

/-! ### Lambdas -/

namespace State

variable {setting : Setting} {done : List Source.File} {start state : State}
  {file : Source.File} {source : Source.Handle .method} {compiled : Compiled.Handle .method}
  {bodies : Source.Handle .method → Compiled.Handle .method → State → State}

/-- Bodies are entered in a way that is an excursion into them. -/
def Enters (setting : Setting) (start : State) (file : Source.File)
    (bodies : Source.Handle .method → Compiled.Handle .method → State → State)
    (source : Source.Handle .method) : Prop :=
  ∀ state compiled, Steps setting anyElement start state → file.Relinked state.file →
    state.file.linkedMethod? source = some compiled → state.file.Untouched source →
    Excursion setting start (file.Inside source) state (bodies source compiled state) ∧
      Visited setting start (bodies source compiled state) source compiled ∧
      (state.file.nestingDepth source ≤ maxLambdaNesting →
        (source, compiled) ∈ (bodies source compiled state).pairs)

/-- The method that implements a lambda is taken, if it has room for the parameters of the lambda. -/
def ImplementationTaken (setting : Setting) (file : Source.File)
    (pair : Source.Handle .method × Compiled.Handle .lambda) (final : State) : Prop :=
  ∀ implementation, (setting.pool.lambdaAt pair.2).implementation = some implementation →
    (file.methodAt pair.1).arity ≤ (setting.pool.methodAt implementation).arity →
      final.isConsumed implementation.ref = true

/-- Where two methods have equally many lambdas, the methods that implement them are taken. -/
def ImplementationsTaken (setting : Setting) (file : Source.File) (source : Source.Handle .method)
    (compiled : Compiled.Handle .method) (final : State) : Prop :=
  (file.methodAt source).lambdas.length = (setting.pool.methodAt compiled).lambdas.length →
    ∀ pair ∈ (file.methodAt source).lambdas.zip (setting.pool.methodAt compiled).lambdas,
      ImplementationTaken setting file pair final

/-- The body of a method is untouched right after the method is matched. -/
theorem untouched_record {method : Source.Handle .method} {other : Compiled.Ref}
    (sound : state.Sound setting done) (unlinked : state.file.isLinked method.ref = false) :
    (state.record setting method.ref other).file.Untouched method := by
  intro element owned
  rw [(record_relinked setting state method.ref other).owningMethod] at owned
  apply unlinked_record _ (sound.untouched_of_unlinked unlinked element owned)
  rintro rfl
  exact Nat.lt_irrefl _ (sound.current.formed.parent_lt owned)

/-- Once a method is matched, those that are linked are the method and what was linked before. -/
theorem linkedMethod_of_record {method inner : Source.Handle .method}
    {other innerOther : Compiled.Handle .method}
    (accepted : state.accepts method.ref other.ref = true)
    (linked : (state.record setting method.ref other.ref).file.linkedMethod? inner =
      some innerOther) :
    state.file.linkedMethod? inner = some innerOther ∨ inner = method ∧ innerOther = other := by
  obtain ⟨id, found⟩ := Source.File.linkedMethod_iff.mp linked
  rw [link_record accepted] at found
  split at found
  · next isMethod =>
    obtain ⟨sameOther, _⟩ := Source.Link.mk.inj (Option.some.inj found)
    exact .inr ⟨(ref_injective isMethod).symm, (compiledRef_injective sameOther).symm⟩
  · exact .inl (Source.File.linkedMethod_iff.mpr ⟨id, found⟩)

/-- A lambda that may be matched is linked, and its body is entered. -/
theorem enterLambda_excursion {lambda : Source.Handle .method}
    {implementation : Compiled.Handle .method} (startSound : start.Sound setting done)
    (before : Steps setting anyElement start state) (same : file.Relinked state.file)
    (sought : Sought setting state.file lambda.ref implementation.ref)
    (unlinked : state.file.isLinked lambda.ref = false)
    (accepted : state.accepts lambda.ref implementation.ref = true)
    (enters : Enters setting start file bodies lambda) :
    let final := bodies lambda implementation (state.record setting lambda.ref implementation.ref)
    Excursion setting start (fun element => element = lambda.ref ∨ file.Inside lambda element)
        state final ∧
      final.file.isLinked lambda.ref = true ∧ final.isConsumed implementation.ref = true := by
  let matched := state.record setting lambda.ref implementation.ref
  have step : Step setting (fun element => element = lambda.ref ∨ file.Inside lambda element)
      state matched := .accept sought.fits (.inl rfl) accepted
  have matchedBefore : Steps setting anyElement start matched :=
    before.trans (Steps.any (.single step))
  have matchedSame : state.file.Relinked matched.file := record_relinked _ _ _ _
  have matchedLinked : matched.file.linkedMethod? lambda = some implementation :=
    Source.File.linkedMethod_iff.mpr ⟨_, (link_record accepted _).trans (if_pos rfl)⟩
  have matchedPairs : matched.pairs = state.pairs := record_pairs _ _ _ _
  obtain ⟨excursion, visited, remembered⟩ := enters matched implementation matchedBefore
    (same.trans matchedSame) matchedLinked
    (untouched_record (before.sound startSound) unlinked)
  refine ⟨⟨.head step (excursion.steps.mono fun _ => .inr),
    .head (.offer sought unlinked) excursion.passes, matchedSame.trans excursion.relinked,
    fun inner innerCompiled innerLinked => ?_, ?_⟩, ?_, ?_⟩
  · rcases excursion.explores inner innerCompiled innerLinked with isMatched | visitedThere
    · rcases linkedMethod_of_record accepted isMatched with isOld | ⟨rfl, rfl⟩
      · exact .inl isOld
      · exact .inr visited
    · exact .inr visitedThere
  · constructor
    case kept =>
      rw [← matchedPairs]
      exact excursion.collects.kept
    case shallow =>
      intro before
      apply excursion.collects.shallow
      intro pair member
      rw [matchedSame.nestingDepth]
      exact before pair (matchedPairs ▸ member)
    case gathered =>
      intro inner innerCompiled innerLinked depth
      rcases excursion.collects.gathered inner innerCompiled innerLinked depth with
        isMatched | member
      · rw [excursion.relinked.nestingDepth] at depth
        rcases linkedMethod_of_record accepted isMatched with isOld | ⟨rfl, rfl⟩
        · exact .inl isOld
        · exact .inr (remembered depth)
      · exact .inr member
  · obtain ⟨id, found⟩ := Source.File.linkedMethod_iff.mp matchedLinked
    apply (excursion.steps.grows (matchedBefore.sound startSound)).extended.isLinked
    exact Source.File.isLinked_of_link found
  · apply (excursion.steps.grows (matchedBefore.sound startSound)).consumed
    exact (isConsumed_record accepted _).mpr (.inl rfl)

/-- A lambda is matched and its body entered, or something is noted. -/
theorem matchLambda_excursion {lambda : Source.Handle .method} {place : Compiled.Handle .lambda}
    (startSound : start.Sound setting done) (before : Steps setting anyElement start state)
    (same : file.Relinked state.file) (linked : state.file.linkedMethod? source = some compiled)
    (listed : lambda ∈ (file.methodAt source).lambdas)
    (compiledListed : place ∈ (setting.pool.methodAt compiled).lambdas)
    (unlinked : state.file.isLinked lambda.ref = false)
    (enters : Enters setting start file bodies lambda) :
    let final := state.matchLambda setting bodies (lambda, place)
    Excursion setting start (fun element => element = lambda.ref ∨ file.Inside lambda element)
        state final ∧
      final.Settled lambda.ref ∧ ImplementationTaken setting file (lambda, place) final := by
  have sound := before.sound startSound
  dsimp only
  unfold matchLambda
  dsimp only
  split
  · next missing =>
    exact ⟨.note _ nofun, .inr (noticed_notice _ _), fun _ found => nomatch missing.symm.trans found⟩
  · next implementation implemented =>
    split
    · next full =>
      refine ⟨.note _ nofun, .inr (noticed_notice _ _), fun other found room => ?_⟩
      obtain rfl := Option.some.inj (implemented.symm.trans found)
      rw [same.methodAt] at full
      exact absurd room (Nat.not_le_of_lt full)
    · next room =>
      have sought : Sought setting state.file lambda.ref implementation.ref := by
        rw [← same.methodAt] at listed
        exact .lambda (sound.current.formed.isLambda_of_listed listed) linked listed compiledListed
          implemented (Nat.le_of_not_lt room)
      split
      · next accepted =>
        obtain ⟨excursion, isLinked, taken⟩ :=
          enterLambda_excursion startSound before same sought unlinked accepted enters
        refine ⟨excursion, .inl isLinked, fun other found _ => ?_⟩
        exact Option.some.inj (implemented.symm.trans found) ▸ taken
      · next rejected =>
        have taken : state.isConsumed implementation.ref = true :=
          consumed_of_rejected unlinked (Bool.eq_false_iff.mpr rejected)
        have step : Step setting (fun _ => False) state
            (state.record setting lambda.ref implementation.ref) :=
          .reject sought.fits unlinked taken
        have noted := @record_of_rejected setting state lambda.ref implementation.ref
          (rejected_of_consumed taken)
        constructor
        · refine .of_same (.single step) (.single (.offer sought unlinked)) ?_ ?_ <;> rw [noted] <;> rfl
        · rw [noted]
          refine ⟨.inr (noticed_notice _ _), fun other found _ => ?_⟩
          exact Option.some.inj (implemented.symm.trans found) ▸ taken

/-- All lambdas of a method are matched and their bodies entered, or something is noted. -/
theorem matchLambdas_excursion (startSound : start.Sound setting done)
    (before : Steps setting anyElement start state)
    (linked : state.file.linkedMethod? source = some compiled)
    (unlinked : ∀ lambda ∈ (state.file.methodAt source).lambdas,
      state.file.isLinked lambda.ref = false)
    (enters : ∀ lambda ∈ (state.file.methodAt source).lambdas,
      Enters setting start state.file bodies lambda) :
    let final := state.matchLambdas setting bodies source compiled
    Excursion setting start (state.file.Inside source) state final ∧
      (∀ lambda ∈ (state.file.methodAt source).lambdas, final.Settled lambda.ref) ∧
      ImplementationsTaken setting state.file source compiled final := by
  have sound := before.sound startSound
  have formed := sound.current.formed
  have inside {lambda : Source.Handle .method}
      (listed : lambda ∈ (state.file.methodAt source).lambdas) :
      (state.file.methodAt lambda).parent = some source := (formed.mem_lambdas.mp listed).2
  dsimp only
  unfold matchLambdas
  dsimp only
  split
  · next sized =>
    have mem_lambdas {pair : Source.Handle .method × Compiled.Handle .lambda}
        (member : pair ∈ (state.file.methodAt source).lambdas.zip
          (setting.pool.methodAt compiled).lambdas) :
        pair.1 ∈ (state.file.methodAt source).lambdas ∧
          pair.2 ∈ (setting.pool.methodAt compiled).lambdas := List.of_mem_zip member
    have pass := @foldl_stages _ _ state (matchLambda setting bodies)
      (fun pair => Excursion setting start fun element =>
        element = pair.1.ref ∨ state.file.Inside pair.1 element)
      (Excursion setting start (state.file.Inside source))
      (fun pair current => current.file.isLinked pair.1.ref = false)
      (fun pair current => current.Settled pair.1.ref ∧
        ImplementationTaken setting state.file pair current) .refl Excursion.trans
      ((state.file.methodAt source).lambdas.zip (setting.pool.methodAt compiled).lambdas)
    obtain ⟨excursion, ends⟩ := by
      refine pass ?weaker ?advance ?kept ?lasting ?ready
      case weaker =>
        refine fun pair member current later => Excursion.mono fun element either => ?_
        have outer := inside (mem_lambdas member).1
        rcases either with rfl | ⟨holder, owned, within⟩
        · exact ⟨source, outer, .refl⟩
        · exact ⟨holder, owned, .head outer within⟩
      case advance =>
        rintro ⟨lambda, place⟩ member current reached clear
        exact matchLambda_excursion startSound (before.trans reached.steps.any) reached.relinked
          ((reached.steps.grows sound).extended.linkedMethod linked) (mem_lambdas member).1
          (mem_lambdas member).2 clear (enters lambda (mem_lambdas member).1)
      case kept =>
        have apart := List.pairwise_map.mp
          ((formed.lambdas_nodup source).sublist
            (fst_zip_sublist _ (setting.pool.methodAt compiled).lambdas))
        refine apart.imp_of_mem fun {pair next} isPair isNext different => ?_
        intro current later _ moves clear
        apply moves.steps.unlinked clear
        rintro (same | ⟨holder, owned, within⟩)
        · exact different (ref_injective same).symm
        · -- The next lambda is right inside the method, which no lambda of it encloses.
          obtain rfl := Option.some.inj ((inside (mem_lambdas isNext).1).symm.trans owned)
          have first := formed.parent_lt (inside (mem_lambdas isPair).1)
          exact absurd (formed.index_le_of_within within) (Nat.not_le_of_lt first)
      case lasting =>
        intro pair _ current later reached moves done
        have grown := moves.steps.grows (reached.steps.sound sound)
        exact ⟨grown.settled done.1, fun other found room => grown.consumed _ (done.2 other found room)⟩
      case ready => exact fun pair member => unlinked pair.1 (mem_lambdas member).1
    refine ⟨excursion, fun lambda listed => ?_, fun _ pair member => (ends pair member).2⟩
    have paired : lambda ∈ ((state.file.methodAt source).lambdas.zip
        (setting.pool.methodAt compiled).lambdas).map Prod.fst := by
      rw [List.map_fst_zip (Nat.le_of_eq sized)]
      exact listed
    obtain ⟨pair, member, rfl⟩ := List.mem_map.mp paired
    exact (ends pair member).1
  · next uneven =>
    split
    · next none_listed =>
      rw [none_listed]
      exact ⟨.refl _, nofun, fun sized => absurd sized uneven⟩
    · exact ⟨.note _ nofun, fun _ _ => .inr (noticed_notice _ _), fun sized => absurd sized uneven⟩

/-! ### Bodies -/

/-- Matching the statements of a method that is entered. -/
theorem matchStatements_excursion (sound : state.Sound setting done)
    (linked : state.file.linkedMethod? source = some compiled)
    (shallow : state.file.nestingDepth source ≤ maxLambdaNesting)
    (untouched : state.file.Untouched source) :
    let final := state.matchStatements setting source compiled
    Excursion setting start
        (fun element => state.file.owningMethod? element = some source ∧ element.kind ≠ .method)
        state final ∧
      (∀ pass : BodyPass, pass.Settled setting source compiled state.file final) ∧
      (source, compiled) ∈ final.pairs := by
  obtain ⟨links, settled⟩ := matchStatements_links sound.current.formed sound.pool untouched
    fun other => sound.opened linked untouched
  have steps : Steps setting
      (fun element => state.file.owningMethod? element = some source ∧ element.kind ≠ .method)
      state (state.matchStatements setting source compiled) := by
    refine .head (.enter linked) (links.steps sound.current.formed fun own other fits => ?_)
    exact ⟨.statement linked fits, (fits.owner sound.current.formed).2, fits.kind_ne.2.2⟩
  have pass : Pass setting state (state.matchStatements setting source compiled) :=
    @Pass.statements setting state (source, compiled) linked untouched
  have pairs : (state.matchStatements setting source compiled).pairs =
      state.pairs ++ [(source, compiled)] := links.gains.pairs
  have explores {start : State} :
      Explores setting start state (state.matchStatements setting source compiled) :=
    .of_steps steps fun own owned => owned.2
  refine ⟨⟨steps, .single pass, links.gains.relinked, explores, ?_⟩, settled, by simp [pairs]⟩
  constructor
  case kept =>
    intro pair member
    rw [pairs]
    exact List.mem_append_left _ member
  case shallow =>
    intro before pair member
    rw [links.gains.relinked.nestingDepth]
    rw [pairs] at member
    rcases (List.mem_append.mp member).imp_right List.mem_singleton.mp with old | rfl
    · exact before pair old
    · exact shallow
  case gathered =>
    intro inner innerCompiled innerLinked _
    obtain ⟨id, found⟩ := Source.File.linkedMethod_iff.mp innerLinked
    rcases steps.link_new _ _ found with isOld | owned
    · exact .inl (Source.File.linkedMethod_iff.mpr ⟨id, isOld⟩)
    · exact absurd rfl owned.2

/-- What a method that is entered is brought to: all its statements and lambdas are settled, unless it
is nested too deeply. -/
def Entered (setting : Setting) (budget : Nat) (source : Source.Handle .method)
    (compiled : Compiled.Handle .method) (file : Source.File) (final : State) : Prop :=
  (∀ pass : BodyPass, pass.Settled setting source compiled file final) ∧
      (∀ lambda ∈ (file.methodAt source).lambdas, final.Settled lambda.ref) ∨
    budget = 0 ∧ final.Noticed

/-- Matching two bodies and the lambdas in them, however deeply these are nested. -/
theorem matchBody_explores (startSound : start.Sound setting done) (budget : Nat)
    (before : Steps setting anyElement start state)
    (budgeted : budget = maxLambdaNesting + 1 - state.file.nestingDepth source)
    (linked : state.file.linkedMethod? source = some compiled)
    (untouched : state.file.Untouched source) :
    let final := state.matchBody setting budget source compiled
    Excursion setting start (state.file.Inside source) state final ∧
      Entered setting budget source compiled state.file final ∧
      (state.file.nestingDepth source ≤ maxLambdaNesting → (source, compiled) ∈ final.pairs ∧
        ImplementationsTaken setting state.file source compiled final) := by
  induction budget generalizing state source compiled with
  | zero =>
      exact ⟨.note _ nofun, .inr ⟨rfl, noticed_notice _ _⟩, fun shallow => by omega⟩
  | succ budget inductionHypothesis =>
      have sound := before.sound startSound
      have formed := sound.current.formed
      have shallow : state.file.nestingDepth source ≤ maxLambdaNesting := by omega
      obtain ⟨statements, settled, remembered⟩ :=
        @matchStatements_excursion setting done start _ _ _ sound linked shallow untouched
      let matched := state.matchStatements setting source compiled
      have same : state.file.Relinked matched.file := statements.relinked
      have matchedSound : matched.Sound setting done := statements.steps.sound sound
      have grown := statements.steps.grows sound
      obtain ⟨lambdas, ends, taken⟩ := @matchLambdas_excursion setting done start matched source compiled
        (matchBody setting budget) startSound (before.trans statements.steps.any)
        (grown.extended.linkedMethod linked)
        (fun lambda listed => by
          rw [same.methodAt] at listed
          have unlinked := untouched lambda.ref (formed.mem_lambdas.mp listed).2
          exact statements.steps.unlinked unlinked fun owned => owned.2 rfl)
        (fun lambda listed current other currentBefore currentSame currentLinked
            currentUntouched => by
          rw [same.methodAt] at listed
          have nested := formed.nestingDepth_of_parent (formed.mem_lambdas.mp listed).2
          have currentBudget :
              budget = maxLambdaNesting + 1 - current.file.nestingDepth lambda := by
            rw [(same.trans currentSame).nestingDepth]
            omega
          obtain ⟨moves, _, inner⟩ :=
            inductionHypothesis currentBefore currentBudget currentLinked currentUntouched
          refine ⟨moves.mono fun element => currentSame.inside.mp, ?_, fun depth => (inner depth).1⟩
          exact ⟨current, currentBefore, currentLinked, currentUntouched, currentBudget ▸ .refl⟩)
      refine ⟨(statements.mono fun element owned => ⟨source, owned.1, .refl⟩).trans
        (lambdas.mono fun element => same.inside.mp), .inl ⟨fun pass => ?_, fun lambda listed => ?_⟩,
        fun _ => ⟨lambdas.collects.kept _ remembered, ?_⟩⟩
      · exact BodyPass.settled_grow formed grown.extended (lambdas.steps.grows matchedSound)
          (settled pass)
      · exact ends lambda (by rw [same.methodAt]; exact listed)
      · obtain ⟨_, sameFile⟩ := same
        rw [sameFile] at taken
        exact taken

theorem Entered.grow {budget : Nat} {final : State} (formed : file.WellFormed)
    (extended : file.Extends state.file) (grown : state.Grows final)
    (entered : Entered setting budget source compiled file state) :
    Entered setting budget source compiled file final := by
  rcases entered with ⟨passes, lambdas⟩ | ⟨deep, noted⟩
  · exact .inl ⟨fun pass => BodyPass.settled_grow formed extended grown (passes pass),
      fun lambda listed => grown.settled (lambdas lambda listed)⟩
  · exact .inr ⟨deep, grown.noticed noted⟩

end State

/-- What became of a method whose body was entered. -/
theorem Visited.entered {setting : Setting} {done : List Source.File} {start final : State}
    {source : Source.Handle .method} {compiled : Compiled.Handle .method}
    (startSound : start.Sound setting done)
    (visited : Visited setting start final source compiled) :
    ∃ entry, Steps setting anyElement start entry ∧
      entry.file.linkedMethod? source = some compiled ∧ entry.file.Untouched source ∧
      Steps setting anyElement entry final ∧
      State.Entered setting (maxLambdaNesting + 1 - entry.file.nestingDepth source) source compiled
        entry.file final := by
  obtain ⟨entry, before, linked, untouched, after⟩ := visited
  obtain ⟨excursion, entered, _⟩ :=
    State.matchBody_explores startSound _ before rfl linked untouched
  have sound := before.sound startSound
  have matchedSound := excursion.steps.sound sound
  exact ⟨entry, before, linked, untouched, excursion.steps.any.trans after,
    entered.grow sound.current.formed (excursion.steps.grows sound).extended
      (after.grows matchedSound)⟩

end Correlate.Matching
