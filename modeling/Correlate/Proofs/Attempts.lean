/-
Module: Correlate.Proofs.Attempts
Purpose: What is linked is never tried again, and only types and lambdas come too late.
Main exports: Quiet, State.record_not_quiet, Attempt, Pass.attempts, Confined, run_confined
-/
import Correlate.Proofs.Matching.Runs

namespace Correlate.Matching

/-!
A match is tried where `State.record` is called, and every call leaves a trace: a match that is made
is logged, one that is not made is noted as redundant.  `Quiet` is what leaves no such trace.  So a
run that is a sequence of `Attempt`s tries no match besides those in the sequence.
-/

/-- The outcome of a run as it stands while a file is matched after others. -/
def State.outcome (done : List Source.File) (state : State) : Outcome :=
  ⟨done ++ [state.file], state.toLedger⟩

/-! ### What is no attempt -/

/-- Nothing is matched, and no match is noted as redundant. -/
structure Quiet (before after : Outcome) : Prop where
  files : ∀ (i : Nat) (file : Source.File), before.files[i]? = some file →
    ∃ later : Source.File, after.files[i]? = some later ∧ file.Extends later
  links : ∀ handle, linkAt after.files handle = linkAt before.files handle
  registry : after.ledger.registry = before.ledger.registry
  notices : ∃ added : List Notice,
    after.ledger.notices.toList = before.ledger.notices.toList ++ added ∧
      ∀ notice ∈ added, notice.finding.kind ≠ .redundantMatch

/-- What becomes of the last file becomes of it among the files before it. -/
theorem extends_last {done : List Source.File} {file later : Source.File}
    (extended : file.Extends later) (i : Nat) (earlier : Source.File)
    (found : (done ++ [file])[i]? = some earlier) :
    ∃ final : Source.File, (done ++ [later])[i]? = some final ∧ earlier.Extends final := by
  rcases Nat.lt_or_ge i done.length with isDone | isLast
  · rw [List.getElem?_append_left isDone] at found ⊢
    exact ⟨earlier, found, .refl earlier⟩
  · rw [List.getElem?_append_right isLast] at found ⊢
    match i - done.length, found with
    | 0, found =>
        obtain rfl := Option.some.inj found
        exact ⟨later, rfl, extended⟩

section State

variable {plan : Plan} {setting : Setting} {done : List Source.File} {state later : State}
  {own : Source.Ref} {other : Compiled.Ref}

/-- The last file gains no links. -/
theorem Quiet.of_last (extended : state.file.Extends later.file)
    (links : later.file.links = state.file.links) (registry_kept : later.registry = state.registry)
    (notices_kept : later.notices = state.notices) :
    Quiet (state.outcome done) (later.outcome done) where
  files := extends_last extended
  links := linkAt_congr_last done links
  registry := registry_kept
  notices := ⟨[], by simp [State.outcome, notices_kept], nofun⟩

theorem Quiet.note (line : Option Nat) {finding : Finding} (fresh : finding.kind ≠ .redundantMatch) :
    Quiet (state.outcome done) ((state.notice line finding).outcome done) where
  files := extends_last (.refl _)
  links _ := rfl
  registry := rfl
  notices := by
    refine ⟨[⟨state.file.path, line, finding⟩], Array.toList_push, ?_⟩
    rintro notice member
    rw [List.mem_singleton.mp member]
    exact fresh

/-- No attempt is quiet. -/
theorem State.record_not_quiet (setting : Setting) (state : State) (own : Source.Ref)
    (other : Compiled.Ref) :
    ¬ Quiet (state.outcome done) ((state.record setting own other).outcome done) := by
  intro quiet
  cases accepted : state.accepts own other with
  | true =>
      rw [State.record_of_accepts accepted] at quiet
      have sizes := congrArg (fun registry : Registry => registry.log.size) quiet.registry
      simp [State.outcome] at sizes
  | false =>
      rw [State.record_of_rejected accepted] at quiet
      obtain ⟨added, grown, fresh⟩ := quiet.notices
      simp only [State.outcome, State.noticeAt, State.notice, Array.toList_push,
        List.append_cancel_left_eq] at grown
      rw [← grown] at fresh
      exact fresh _ (List.mem_singleton_self _) rfl

/-! ### Attempts -/

/-- A match is tried, or nothing is.  The source element has no link when it is tried.  The match is
made, unless it is a type or a lambda that finds taken what it seeks. -/
inductive Attempt (plan : Plan) : Outcome → Outcome → Prop where
  | record {done : List Source.File} {state : State} {own : Source.Ref} {other : Compiled.Ref}
      (unlinked : state.file.isLinked own = false)
      (confined : state.registry.record? plan.pool done.length own other state.file = none →
        Sought (plan.setting done.length) state.file own other ∧ state.isConsumed other = true) :
      Attempt plan (state.outcome done)
        ((state.record (plan.setting done.length) own other).outcome done)
  | quiet {before after : Outcome} (quiet : Quiet before after) : Attempt plan before after

theorem record?_eq_none_iff {pool : Compiled.Pool} {fileIndex : Nat} :
    state.registry.record? pool fileIndex own other state.file = none ↔
      state.accepts own other = false := by
  unfold Registry.record? State.accepts Registry.accepts Source.File.setLink?
  cases state.registry.isConsumed other <;> cases state.file.isLinked own <;> simp

/-- A match of two open elements. -/
theorem Attempt.of_accepts (accepted : state.accepts own other = true) :
    Attempt plan (state.outcome done)
      ((state.record (plan.setting done.length) own other).outcome done) := by
  apply Attempt.record (State.accepts_iff.mp accepted).2
  intro rejected
  rw [record?_eq_none_iff, accepted] at rejected
  cases rejected

/-- A type or a lambda is matched, unless what it seeks is taken. -/
theorem Attempt.of_sought (sought : Sought (plan.setting done.length) state.file own other)
    (unlinked : state.file.isLinked own = false) :
    Attempt plan (state.outcome done)
      ((state.record (plan.setting done.length) own other).outcome done) := by
  apply Attempt.record unlinked
  intro rejected
  exact ⟨sought, State.consumed_of_rejected unlinked (record?_eq_none_iff.mp rejected)⟩

/-- Attempts one after the other. -/
abbrev Attempts (plan : Plan) : Outcome → Outcome → Prop :=
  Relation.ReflTransGen (Attempt plan)

theorem LinkSteps.attempts {permitted : Source.Ref → Compiled.Ref → Prop}
    (links : LinkSteps (plan.setting done.length) permitted state later) :
    Attempts plan (state.outcome done) (later.outcome done) := by
  induction links with
  | refl => exact .refl
  | tail _ step inductionHypothesis =>
      apply inductionHypothesis.tail
      cases step with
      | accept _ accepted => exact .of_accepts accepted
      | note line fresh => exact .quiet (.note line fresh)
      | aliased symbol slot => exact .quiet (.of_last (.refl _) rfl rfl rfl)
      | compared asked => exact .quiet (.of_last (.refl _) rfl rfl rfl)

/-- A pass is a sequence of attempts. -/
theorem Pass.attempts (sound : state.Sound (plan.setting done.length) done)
    (pass : Pass (plan.setting done.length) state later) :
    Attempts plan (state.outcome done) (later.outcome done) := by
  have formed := sound.current.formed
  cases pass with
  | offer sought unlinked => exact .single (.of_sought sought unlinked)
  | members fits links => exact links.attempts
  | turn => exact .refl
  | @statements _ pair linked untouched =>
      obtain ⟨links, _⟩ := State.matchStatements_links formed sound.pool untouched
        fun other => sound.opened linked untouched
      -- Remembering the methods shows in no outcome.
      have remembered : (state.addPair (pair.1, pair.2)).outcome done = state.outcome done := rfl
      rw [← remembered]
      exact links.attempts
  | outerThis linked => exact (State.matchOuterThis_links formed _).attempts
  | arrays linked => exact (State.matchReflectiveArrays_links formed sound.pool _).attempts
  | @standIn _ file own other placed opened =>
      have stands := placed.standsIn
      have extended := (stands.added formed).2.1
      let placedState : State := { state with file }
      have added : Quiet (state.outcome done) (placedState.outcome done) :=
        .of_last extended stands.links rfl rfl
      exact .head (.quiet added) (.single (.of_accepts (stands.accepts formed opened)))
  | resolve usage name =>
      have extended := Source.File.extends_resolveUsage state.file usage name
      exact .single (.quiet (.of_last extended rfl rfl rfl))

theorem Passes.attempts (sound : state.Sound (plan.setting done.length) done)
    (passes : Passes (plan.setting done.length) state later) :
    Attempts plan (state.outcome done) (later.outcome done) := by
  induction passes with
  | refl => exact .refl
  | tail before pass inductionHypothesis =>
      exact inductionHypothesis.trans (pass.attempts (Passes.sound_grows sound before).1)

end State

/-! ### What comes too late -/

namespace Sought

variable {setting : Setting} {file later : Source.File} {own : Source.Ref} {other : Compiled.Ref}

theorem known (sought : Sought setting file own other) : own.index < file.count own.kind := by
  cases sought with
  | type known _ => exact known
  | @lambda _ _ _ own _ isLambda =>
      by_contra unknown
      have absent : file.methods[own.index]? = none :=
        Array.getElem?_eq_none (Nat.le_of_not_lt unknown)
      rw [Source.File.methodAt, absent] at isLambda
      cases isLambda

/-- What an element seeks stays. -/
theorem extend (sought : Sought setting file own other) (extended : file.Extends later) :
    Sought setting later own other := by
  cases sought with
  | type known named =>
      rw [← extended.typeCount] at known
      rw [← extended.binaryName] at named
      exact .type known named
  | @lambda _ _ _ own _ isLambda linked listed compiledListed implemented room =>
      rw [← extended.methodKind] at isLambda
      rw [← extended.readMethod Source.Method.lambdas fun _ _ _ => rfl] at listed
      rw [← extended.readMethod Source.Method.arity fun _ _ _ => rfl] at room
      exact .lambda isLambda (extended.linkedMethod linked) listed compiledListed implemented room

theorem label (sought : Sought setting file own other) (extended : file.Extends later) :
    later.label own = file.label own := by
  cases sought with
  | @type own => exact extended.binaryName own
  | @lambda _ _ _ own => exact extended.readMethod Source.Method.name (fun _ _ _ => rfl) own

end Sought

/-- Every match that is noted as redundant was one of a type or of a lambda, and what that seeks is
taken. -/
def Confined (plan : Plan) (outcome : Outcome) : Prop :=
  ∀ notice ∈ outcome.ledger.notices, notice.finding.kind = .redundantMatch →
    ∃ (i : Nat) (file : Source.File) (own : Source.Ref) (other : Compiled.Ref),
      outcome.files[i]? = some file ∧ Sought (plan.setting i) file own other ∧
        outcome.ledger.registry.isConsumed other = true ∧
        notice = ⟨file.path, file.startLine? own,
          .alreadyMatched own.kind.element (file.label own) (plan.pool.elementId other)⟩

namespace Confined

variable {plan : Plan} {before after : Outcome}

/-- What was noted as redundant before. -/
theorem grow (confined : Confined plan before)
    (files : ∀ (i : Nat) (file : Source.File), before.files[i]? = some file →
      ∃ later : Source.File, after.files[i]? = some later ∧ file.Extends later)
    (consumed : ∀ other, before.ledger.registry.isConsumed other = true →
      after.ledger.registry.isConsumed other = true)
    (notices : ∀ notice ∈ after.ledger.notices, notice.finding.kind = .redundantMatch →
      notice ∈ before.ledger.notices) : Confined plan after := by
  intro notice noted redundant
  obtain ⟨i, file, own, other, found, sought, taken, rfl⟩ :=
    confined notice (notices notice noted redundant) redundant
  obtain ⟨later, isLater, extended⟩ := files i file found
  refine ⟨i, later, own, other, isLater, sought.extend extended, consumed other taken, ?_⟩
  rw [extended.path, extended.startLine sought.known, sought.label extended]

end Confined

/-- An attempt adds at most a notice about a type or a lambda. -/
theorem Attempt.confined {plan : Plan} {before after : Outcome} (attempt : Attempt plan before after)
    (confined : Confined plan before) : Confined plan after := by
  cases attempt with
  | quiet quiet =>
      refine confined.grow quiet.files (fun other taken => quiet.registry ▸ taken) ?_
      intro notice noted redundant
      obtain ⟨added, grown, fresh⟩ := quiet.notices
      rw [← Array.mem_toList_iff, grown, List.mem_append, Array.mem_toList_iff] at noted
      exact noted.resolve_right fun isNew => fresh notice isNew redundant
  | @record done state own other unlinked isConfined =>
      cases accepted : state.accepts own other with
      | true =>
          have recorded := @State.record_of_accepts (plan.setting done.length) _ _ _ accepted
          have extended := State.record_extends (plan.setting done.length) state own other
          refine confined.grow (extends_last extended) (fun element taken => ?_) fun notice noted _ => ?_
          · exact (State.isConsumed_record accepted element).mpr (.inr taken)
          · rw [State.outcome, recorded] at noted
            exact noted
      | false =>
          obtain ⟨sought, taken⟩ := isConfined (record?_eq_none_iff.mpr accepted)
          rw [State.record_of_rejected accepted]
          intro notice noted redundant
          rcases Array.mem_push.mp noted with isOld | rfl
          · exact confined notice isOld redundant
          · refine ⟨done.length, state.file, own, other, ?_, sought, taken, rfl⟩
            exact List.getElem?_concat_length

/-! ### Whole runs -/

variable {plan : Plan} {files : List Source.File}

/-- Matching one more file is a sequence of attempts. -/
theorem Outcome.Sound.matchFile_attempts {outcome : Outcome} {file : Source.File}
    (poolFormed : plan.pool.WellFormed) (sound : outcome.Sound plan files)
    (formed : file.WellFormed) (unlinked : ∀ element, file.isLinked element = false) :
    Attempts plan outcome (Matching.matchFile plan outcome file) := by
  let start := outcome.open file
  have startSound := sound.open_sound poolFormed formed unlinked
  have journey := (State.matchTypes_journey startSound unlinked).1
  have opened : Quiet outcome (start.outcome outcome.files) := by
    constructor
    case files =>
      intro i earlier found
      have bound := (List.getElem?_eq_some_iff.mp found).1
      exact ⟨earlier, (List.getElem?_append_left bound).trans found, .refl earlier⟩
    case links =>
      intro handle
      apply Option.ext
      intro link
      refine linkAt_append_single.trans ⟨fun either => either.resolve_right ?_, .inl⟩
      exact fun last => Source.File.not_link_of_unlinked (unlinked _) last.2
    case registry => rfl
    case notices => exact ⟨[], (List.append_nil _).symm, nofun⟩
  exact .head (.quiet opened) (Passes.attempts startSound journey.passes)

/-- Reading the facts tries no match. -/
theorem quiet_reveal (plan : Plan) (outcome : Outcome) :
    Quiet outcome { outcome with ledger := { outcome.ledger with
      aliases := outcome.ledger.aliases ++ revealedAliases plan outcome.files } } where
  files _ file found := ⟨file, found, .refl file⟩
  links _ := rfl
  registry := rfl
  notices := ⟨[], (List.append_nil _).symm, nofun⟩

/-- A run is a sequence of attempts. -/
theorem run_attempts (built : plan.pool.IsBuilt) (reachable : ∀ file ∈ files, file.Reachable)
    (unlinked : ∀ file ∈ files, ∀ element, file.isLinked element = false) :
    Attempts plan {} (run plan files) := by
  have matched : Attempts plan {} (files.foldl (matchFile plan) {}) := by
    induction files using List.reverseRecOn with
    | nil => exact .refl
    | append_singleton before file inductionHypothesis =>
        simp only [List.forall_mem_append, List.forall_mem_singleton] at reachable unlinked
        have sound := foldl_sound built reachable.1 unlinked.1
        rw [List.foldl_append]
        exact (inductionHypothesis reachable.1 unlinked.1).trans
          (sound.matchFile_attempts built.wellFormed reachable.2.wellFormed unlinked.2)
  exact matched.tail (.quiet (quiet_reveal plan _))

/-- In every run, whatever is tried to be matched has no link yet, and only types and lambdas are ever
rejected, for what they seek is taken.  Whatever is noted as redundant is one of these. -/
theorem run_confined (built : plan.pool.IsBuilt) (reachable : ∀ file ∈ files, file.Reachable)
    (unlinked : ∀ file ∈ files, ∀ element, file.isLinked element = false) :
    Attempts plan {} (run plan files) ∧
      (∀ done setting state own other, ¬ Quiet (State.outcome done state)
        ((state.record setting own other).outcome done)) ∧
      Confined plan (run plan files) := by
  have attempts := run_attempts built reachable unlinked
  refine ⟨attempts, fun _ => State.record_not_quiet, ?_⟩
  generalize run plan files = outcome at attempts
  induction attempts with
  | refl => exact fun _ noted => absurd noted (Array.not_mem_empty _)
  | tail _ attempt inductionHypothesis => exact attempt.confined inductionHypothesis

/-- Another file that declares the type of the sample file. -/
def rivalFile : Source.File :=
  ({ path := "C.java", package := "a" } : Source.File).performAll [.type "B" none none]

/-- The type of the second file comes too late, and nothing else does. -/
theorem run_confined_rival : Confined samplePlan (run samplePlan [sampleFile, rivalFile]) ∧
    (run samplePlan [sampleFile, rivalFile]).ledger.notices.toList.filter
      (fun notice => notice.finding.kind = .redundantMatch) =
        [⟨"C.java", none, .alreadyMatched .type "a.B" "a.B"⟩] := by
  have rivalReachable : rivalFile.Reachable := by
    refine (Source.File.Reachable.empty "C.java" "a").performAll ?admitted
    exact ⟨nofun, trivial⟩
  have reachable : ∀ file ∈ [sampleFile, rivalFile], file.Reachable := by
    simp only [List.forall_mem_cons]
    exact ⟨sampleFile_reachable sampleFile (List.mem_singleton_self _), rivalReachable, nofun⟩
  have unlinked : ∀ file ∈ [sampleFile, rivalFile], ∀ element, file.isLinked element = false := by
    simp only [List.forall_mem_cons]
    exact ⟨fun _ => rfl, fun _ => rfl, nofun⟩
  exact ⟨(run_confined samplePlan_isBuilt reachable unlinked).2.2, by decide +kernel⟩

end Correlate.Matching
