/-
Module: Correlate.Proofs.Position
Purpose: Elements of two bodies that are equally many on both sides are matched by position.
Main exports: StandInsLinked, Steps.standInsLinked, PositionComplete, run_positionComplete
-/
import Correlate.Proofs.Matching.Runs

namespace Correlate.Matching

/-! ### Stand-ins -/

/-- Every stand-in of the file is linked. -/
def StandInsLinked (file : Source.File) : Prop :=
  ∀ element : Source.Ref, element.index < file.count element.kind →
    file.isAuthoritative element = false → file.isLinked element = true

namespace StandInsLinked

variable {file later : Source.File}

/-- A file may gain elements that are linked. -/
theorem extend (linked : StandInsLinked file) (extended : file.Extends later)
    (added : ∀ element : Source.Ref, element.index < later.count element.kind →
      element.index < file.count element.kind ∨ later.isLinked element = true) :
    StandInsLinked later := by
  intro element laterKnown stands
  rcases added element laterKnown with known | isLinked
  · rw [extended.isAuthoritative known] at stands
    exact extended.isLinked (linked element known stands)
  · exact isLinked

/-- A file without stand-ins. -/
theorem of_authoritative (authoritative : ∀ element : Source.Ref,
    element.index < file.count element.kind → file.isAuthoritative element = true) :
    StandInsLinked file := by
  intro element known stands
  rw [authoritative element known] at stands
  cases stands

/-- What a method lists while nothing in its body is linked is no stand-in. -/
theorem authoritative_of_untouched {source : Source.Handle .method} (linked : StandInsLinked file)
    (formed : file.WellFormed) (untouched : file.Untouched source) (part : Source.Part) {i : Nat}
    (listed : i ∈ part.list (file.methodAt source)) :
    i < file.count part.kind ∧ file.isAuthoritative ⟨part.kind, i⟩ = true := by
  obtain ⟨known, owned⟩ := formed.owner_of_listed part listed
  refine ⟨known, Bool.not_eq_false _ ▸ fun stands => ?_⟩
  have isLinked := linked ⟨part.kind, i⟩ known stands
  rw [untouched _ owned] at isLinked
  cases isLinked

theorem relinked (linked : StandInsLinked file) (extended : file.Extends later)
    (same : file.Relinked later) : StandInsLinked later :=
  linked.extend extended fun element known => .inl (by rwa [← same.count])

end StandInsLinked

section Steps

variable {setting : Setting} {allowed : Source.Ref → Prop} {done : List Source.File}
  {state later : State}

/-- A stand-in is linked in the step that adds it. -/
theorem Step.standInsLinked (step : Step setting allowed state later)
    (sound : state.Sound setting done) (linked : StandInsLinked state.file) :
    StandInsLinked later.file := by
  have extended := (step.sound sound).2.extended
  cases step with
  | accept | reject => exact linked.relinked extended (State.record_relinked _ _ _ _)
  | note | aliased | compared | enter | turn => exact linked
  | resolve usage name =>
      refine linked.extend extended fun element known => .inl ?_
      obtain ⟨kind, i⟩ := element
      cases kind
      case typeUsage =>
        exact Nat.lt_of_lt_of_eq known extended.usageCount
      all_goals exact known
  | @standIn file own other stands _ opened =>
      apply linked.extend extended
      intro element known
      have same := State.record_relinked setting { state with file } own other
      rw [same.count] at known
      apply (stands.known known).imp_right
      rintro rfl
      have accepted := stands.accepts sound.current.formed opened
      exact Source.File.isLinked_of_link ((State.link_record accepted element).trans (if_pos rfl))

theorem Steps.standInsLinked (steps : Steps setting allowed state later)
    (sound : state.Sound setting done) (linked : StandInsLinked state.file) :
    StandInsLinked later.file := by
  induction steps with
  | refl => exact linked
  | tail before step inductionHypothesis =>
      exact step.standInsLinked (Steps.sound before sound) inductionHypothesis

end Steps

/-! ### What a body contains -/

theorem filter_append_filter {α : Type} {old added : List α} {first second both : α → Bool}
    (kept : ∀ item ∈ old, (first item && second item) = both item)
    (dropped : ∀ item ∈ added, second item = false) :
    ((old ++ added).filter first).filter second = old.filter both := by
  have none_kept : added.filter (fun item => second item && first item) = [] := by
    apply List.filter_eq_nil_iff.mpr
    intro item member
    rw [dropped item member]
    exact nofun
  rw [List.filter_filter, List.filter_append, none_kept, List.append_nil]
  exact List.filter_congr fun item member => (Bool.and_comm _ _).trans (kept item member)

section Contents

variable {file later : Source.File} {source : Source.Handle .method}

/-- The authoritative calls of a body are those from before there were stand-ins. -/
theorem authoritative_calls (formed : later.WellFormed) (extended : file.Extends later)
    (known : ∀ own ∈ (file.methodAt source).invocations, own.index < file.invocations.size)
    (authoritative : ∀ own ∈ (file.methodAt source).invocations,
      file.isAuthoritative own.ref = true) (chosen : Source.Invocation → Bool) :
    ((later.methodAt source).invocations.filter fun own => chosen (later.invocationAt own)).filter
        (fun own => later.isAuthoritative own.ref) =
      (file.methodAt source).invocations.filter fun own => chosen (file.invocationAt own) := by
  obtain ⟨calls, allocations, calls_new, _, grown⟩ := extended.methods source
  rw [grown]
  refine filter_append_filter (fun own member => ?_) fun own member => ?_
  · have same : later.isAuthoritative own.ref = file.isAuthoritative own.ref :=
      extended.isAuthoritative (known own member)
    rw [same, authoritative own member, Bool.and_true, extended.invocationAt (known own member)]
  · rw [Bool.eq_false_iff]
    intro isAuthoritative
    have listed : own ∈ (later.methodAt source).invocations := by
      rw [grown]
      exact List.mem_append_right _ member
    have laterKnown := (formed.owner_of_listed .invocation (List.mem_map_of_mem listed)).1
    have known := extended.known_of_authoritative laterKnown isAuthoritative
    exact absurd known (Nat.not_lt_of_le (calls_new own member))

theorem authoritative_callsTo (formed : later.WellFormed) (extended : file.Extends later)
    (known : ∀ own ∈ (file.methodAt source).invocations, own.index < file.invocations.size)
    (authoritative : ∀ own ∈ (file.methodAt source).invocations,
      file.isAuthoritative own.ref = true) (key : State.CallKey) :
    (State.callsTo later source key).filter (fun own => later.isAuthoritative own.ref) =
      State.callsTo file source key :=
  authoritative_calls formed extended known authoritative fun call =>
    decide ((call.name, call.arity) = key)

/-- The authoritative allocations of a body are those from before there were stand-ins. -/
theorem authoritative_allocationsOf (formed : later.WellFormed) (extended : file.Extends later)
    (known : ∀ own ∈ (file.methodAt source).allocations, own.index < file.allocations.size)
    (authoritative : ∀ own ∈ (file.methodAt source).allocations,
      file.isAuthoritative own.ref = true) (key : String) :
    (State.allocationsOf later source key).filter (fun own => later.isAuthoritative own.ref) =
      State.allocationsOf file source key := by
  obtain ⟨calls, allocations, _, allocations_new, grown⟩ := extended.methods source
  rw [State.allocationsOf, State.allocationsOf, grown]
  refine filter_append_filter (fun own member => ?_) fun own member => ?_
  · have same : later.isAuthoritative own.ref = file.isAuthoritative own.ref :=
      extended.isAuthoritative (known own member)
    rw [same, authoritative own member, Bool.and_true, extended.allocationAt (known own member)]
  · rw [Bool.eq_false_iff]
    intro isAuthoritative
    have listed : own ∈ (later.methodAt source).allocations := by
      rw [grown]
      exact List.mem_append_right _ member
    have laterKnown := (formed.owner_of_listed .allocation (List.mem_map_of_mem listed)).1
    have known := extended.known_of_authoritative laterKnown isAuthoritative
    exact absurd known (Nat.not_lt_of_le (allocations_new own member))

theorem accessesTo_eq (extended : file.Extends later) (name : String) :
    State.accessesTo later source name = State.accessesTo file source name := by
  have listed := extended.readMethod Source.Method.fieldAccesses (fun _ _ _ => rfl) source
  simp only [State.accessesTo, listed, extended.fieldAccessAt]

theorem referencesTo_eq (extended : file.Extends later) (name : String) :
    State.referencesTo later source name = State.referencesTo file source name := by
  have listed := extended.readMethod Source.Method.methodRefs (fun _ _ _ => rfl) source
  simp only [State.referencesTo, listed, extended.methodRefAt]

end Contents

/-! ### Whole runs -/

/-- Group by group, the elements of two bodies are matched position by position where they are equally
many and the order of lines does not forbid it. -/
structure PositionComplete (setting : Setting) (file : Source.File) (source : Source.Handle .method)
    (compiled : Compiled.Handle .method) : Prop where
  calls : ∀ key, PairedInOrder setting file
    ((State.callsTo file source key).filter fun own => file.isAuthoritative own.ref)
    (State.compiledCallsTo setting.pool compiled key)
  allocations : ∀ key, PairedInOrder setting file
    ((State.allocationsOf file source key).filter fun own => file.isAuthoritative own.ref)
    (State.compiledAllocationsOf setting.pool compiled key)
  references : ∀ name, PairedInOrder setting file (State.referencesTo file source name)
    (State.compiledReferencesTo setting.pool compiled name)
  casts : PairedInOrder setting file (file.methodAt source).casts
    (setting.pool.methodAt compiled).casts
  accesses : ∀ name,
    KindsAgree setting.pool file (State.accessesTo file source name)
      (State.compiledAccessesTo setting.pool compiled name) →
    PairedInOrder setting file (State.accessesTo file source name)
      (State.compiledAccessesTo setting.pool compiled name)

/-- What the passes over a body come to, told of the file at the end. -/
theorem PositionComplete.of_settled {setting : Setting} {file : Source.File} {final : State}
    {source : Source.Handle .method} {compiled : Compiled.Handle .method}
    (formed : file.WellFormed) (finalFormed : final.file.WellFormed)
    (extended : file.Extends final.file) (untouched : file.Untouched source)
    (standIns : StandInsLinked file)
    (settled : ∀ pass : BodyPass, pass.Settled setting source compiled file final) :
    PositionComplete setting final.file source compiled := by
  have authoritative (part : Source.Part) {i : Nat} := @StandInsLinked.authoritative_of_untouched
    file source standIns formed untouched part i
  constructor
  case calls =>
    intro key
    rw [authoritative_callsTo finalFormed extended
      (fun own member => (authoritative .invocation (List.mem_map_of_mem member)).1)
      (fun own member => (authoritative .invocation (List.mem_map_of_mem member)).2)]
    exact (settled .calls key).1
  case allocations =>
    intro key
    rw [authoritative_allocationsOf finalFormed extended
      (fun own member => (authoritative .allocation (List.mem_map_of_mem member)).1)
      (fun own member => (authoritative .allocation (List.mem_map_of_mem member)).2)]
    exact (settled .allocations key).1
  case references =>
    intro name
    rw [referencesTo_eq extended]
    exact (settled .references name).1
  case casts =>
    rw [extended.readMethod Source.Method.casts fun _ _ _ => rfl]
    exact (settled .casts).1
  case accesses =>
    intro name agree
    rw [accessesTo_eq extended] at agree ⊢
    apply (settled .accesses name).1
    intro i own other isOwn isOther
    rw [← extended.fieldAccessAt]
    exact agree i own other isOwn isOther

variable {plan : Plan} {files : List Source.File}

/-- Every run matches two bodies position by position, group by group, wherever both have equally many
elements in order.  Only lambdas that are nested too deeply are left out. -/
theorem run_positionComplete (built : plan.pool.IsBuilt)
    (reachable : ∀ file ∈ files, file.Reachable)
    (unlinked : ∀ file ∈ files, ∀ element, file.isLinked element = false)
    (authoritative : ∀ file ∈ files, ∀ element : Source.Ref,
      element.index < file.count element.kind → file.isAuthoritative element = true) (i : Nat) :
    ∀ file ∈ (run plan files).files, ∀ source compiled,
      file.linkedMethod? source = some compiled → file.nestingDepth source ≤ maxLambdaNesting →
        PositionComplete (plan.setting i) file source compiled := by
  intro file member source compiled linked shallow
  have sound := run_sound built reachable unlinked
  obtain ⟨j, found⟩ := List.mem_iff_getElem?.mp member
  obtain ⟨start, final, turn, rfl⟩ := sound.turn_of_final found
  obtain ⟨_, visited, _⟩ := turn.explores
  obtain ⟨entry, before, _, untouched, after, entered⟩ :=
    (visited source compiled linked).entered turn.sound
  have entrySound := before.sound turn.sound
  obtain ⟨finalSound, grown⟩ := after.sound_grows entrySound
  have startAuthoritative : StandInsLinked start.file :=
    .of_authoritative (authoritative start.file (List.mem_of_getElem? turn.start_file))
  rcases entered with ⟨settled, _⟩ | ⟨deep, _⟩
  · exact .of_settled entrySound.current.formed finalSound.current.formed grown.extended untouched
      (before.standInsLinked turn.sound startAuthoritative) settled
  · rw [grown.extended.nestingDepth] at shallow
    omega

/-! ### Two elements of every kind -/

/-- A method whose body has two elements of every kind, one after the other. -/
def twofoldPlan : Plan :=
  let go : Compiled.Signature := { name := "go", params := [], returnType := "void" }
  let steps : List Compiled.Step :=
    [.type "p.A", .method ⟨0⟩ { name := "m", params := [], returnType := "void" } {},
      .invocation ⟨0⟩ "p.C" go (some 10), .invocation ⟨0⟩ "p.C" go (some 11),
      .allocation ⟨0⟩ "p.C" (some 12), .allocation ⟨0⟩ "p.C" (some 13),
      .fieldAccess ⟨0⟩ "x" none .read (some 14), .fieldAccess ⟨0⟩ "x" none .write (some 15),
      .cast ⟨0⟩ "p.C" (some 16), .cast ⟨0⟩ "p.D" (some 17),
      .methodRef ⟨0⟩ (some "p.C") "run" (some 18), .methodRef ⟨0⟩ (some "p.D") "run" (some 19)]
  { pool := (({} : Compiled.Builder).performAll steps).1.finish.pool }

/-- Its source. -/
def twofoldFile : Source.File :=
  let onLine (line : Nat) : Option Position := some (.wholeLine line)
  ({ path := "p/A.src.json", package := "p" } : Source.File).performAll
    [.type "A" none none, .method ⟨0⟩ "m" none false none,
      .invocation ⟨1⟩ "go" 0 (onLine 10) none none, .invocation ⟨1⟩ "go" 0 (onLine 11) none none,
      .allocation ⟨1⟩ "C" 0 (onLine 12) none, .allocation ⟨1⟩ "C" 0 (onLine 13) none,
      .fieldAccess ⟨1⟩ "x" .read (onLine 14), .fieldAccess ⟨1⟩ "x" .write (onLine 15),
      .cast ⟨1⟩ "C" (onLine 16), .cast ⟨1⟩ "D" (onLine 17),
      .methodRef ⟨1⟩ "run" (some "C") (onLine 18), .methodRef ⟨1⟩ "run" (some "D") (onLine 19)]

theorem twofoldPlan_isBuilt : twofoldPlan.pool.IsBuilt := by
  have known := Nat.zero_lt_one
  refine ⟨_, Compiled.Builder.Reachable.empty.performAll ?admitted, rfl⟩
  exact ⟨trivial, known, known, known, known, known, known, known, known, known, known, known,
    trivial⟩

theorem twofoldFile_reachable : ∀ file ∈ [twofoldFile], file.Reachable := by
  have known := Nat.one_lt_two
  refine List.forall_mem_singleton.mpr ?_
  refine (Source.File.Reachable.empty "p/A.src.json" "p").performAll ?admitted
  exact ⟨nofun, Nat.zero_lt_one, ⟨known, nofun, nofun⟩, ⟨known, nofun, nofun⟩, ⟨known, nofun⟩,
    ⟨known, nofun⟩, known, known, known, known, known, known, trivial⟩

theorem twofoldFile_unlinked :
    ∀ file ∈ [twofoldFile], ∀ element, file.isLinked element = false :=
  List.forall_mem_singleton.mpr fun _ => rfl

theorem twofoldFile_authoritative : ∀ file ∈ [twofoldFile], ∀ element : Source.Ref,
    element.index < file.count element.kind → file.isAuthoritative element = true := by
  refine List.forall_mem_singleton.mpr (Source.File.authoritative_of_entries ?_ ?_ ?_)
  all_goals decide +kernel

/-- The file after the run. -/
def twofoldResult : Source.File :=
  (run twofoldPlan [twofoldFile]).files.headD default

theorem twofoldResult_mem : twofoldResult ∈ (run twofoldPlan [twofoldFile]).files :=
  headD_mem_run twofoldPlan_isBuilt twofoldFile_reachable twofoldFile_unlinked

/-- The first two elements of a kind are matched in order. -/
def TwofoldPaired (sourceKind : Source.Kind) (compiledKind : Compiled.Kind) : Prop :=
  Paired (twofoldPlan.setting 0) twofoldResult [(⟨0⟩ : Source.Handle sourceKind), ⟨1⟩]
    [(⟨0⟩ : Compiled.Handle compiledKind), ⟨1⟩]

theorem TwofoldPaired.of_group {sourceKind : Source.Kind} {compiledKind : Compiled.Kind}
    {sources : List (Source.Handle sourceKind)} {compiled : List (Compiled.Handle compiledKind)}
    (paired : PairedInOrder (twofoldPlan.setting 0) twofoldResult sources compiled)
    (ordered : InOrder (twofoldPlan.setting 0) twofoldResult sources compiled)
    (own : sources = [⟨0⟩, ⟨1⟩]) (other : compiled = [⟨0⟩, ⟨1⟩]) :
    TwofoldPaired sourceKind compiledKind := by
  subst own other
  exact paired rfl ordered

/-- The two accesses differ in kind, so that agreement is a condition on their order. -/
theorem twofold_kindsAgree : KindsAgree twofoldPlan.pool twofoldResult
    (State.accessesTo twofoldResult ⟨1⟩ "x") (State.compiledAccessesTo twofoldPlan.pool ⟨0⟩ "x") := by
  have own : State.accessesTo twofoldResult ⟨1⟩ "x" = [⟨0⟩, ⟨1⟩] := by decide +kernel
  have other : State.compiledAccessesTo twofoldPlan.pool ⟨0⟩ "x" = [⟨0⟩, ⟨1⟩] := by decide +kernel
  rw [own, other]
  intro i access compiled isOwn isOther
  match i with
  | 0 => cases isOwn; cases isOther; decide +kernel
  | 1 => cases isOwn; cases isOther; decide +kernel
  | _ + 2 => cases isOwn

theorem run_positionComplete_twofold :
    twofoldResult.linkedMethod? ⟨1⟩ = some ⟨0⟩ ∧
      PositionComplete (twofoldPlan.setting 0) twofoldResult ⟨1⟩ ⟨0⟩ ∧
      TwofoldPaired .invocation .invocation ∧ TwofoldPaired .allocation .allocation ∧
      TwofoldPaired .methodRef .methodRef ∧ TwofoldPaired .cast .cast ∧
      TwofoldPaired .fieldAccess .fieldAccess := by
  have linked : twofoldResult.linkedMethod? ⟨1⟩ = some ⟨0⟩ := by decide +kernel
  have complete := run_positionComplete twofoldPlan_isBuilt twofoldFile_reachable
    twofoldFile_unlinked twofoldFile_authoritative 0 twofoldResult twofoldResult_mem ⟨1⟩ ⟨0⟩ linked
    (by decide +kernel)
  refine ⟨linked, complete, ?calls, ?allocations, ?references, ?casts, ?accesses⟩
  case calls =>
    exact .of_group (complete.calls ("go", 0)) (.inr (by decide +kernel)) (by decide +kernel)
      (by decide +kernel)
  case allocations =>
    exact .of_group (complete.allocations "C") (.inr (by decide +kernel)) (by decide +kernel)
      (by decide +kernel)
  case references =>
    exact .of_group (complete.references "run") (.inr (by decide +kernel)) (by decide +kernel)
      (by decide +kernel)
  case casts =>
    exact .of_group complete.casts (.inr (by decide +kernel)) (by decide +kernel)
      (by decide +kernel)
  case accesses =>
    exact .of_group (complete.accesses "x" twofold_kindsAgree) (.inr (by decide +kernel))
      (by decide +kernel) (by decide +kernel)

end Correlate.Matching
