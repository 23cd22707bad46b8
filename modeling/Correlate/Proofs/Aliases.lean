/-
Module: Correlate.Proofs.Aliases
Purpose: The aliases that a run notes on its way are those that its links tell in the end.
Main exports: StandsFor, KeepsSlots, Told, Passes.told, run_aliases
-/
import Correlate.Proofs.Matching.Aliasing
import Correlate.Proofs.Scope
import Correlate.Proofs.Source.Bases

namespace Correlate.Matching

/-!
Aliases are noted while bodies are matched, one body after the other.  The slot of the variable that a
call is made on is chosen then, from the links that there are, and the variable may belong to a method
further out.  It makes no difference when that is.  Variables are linked in the first pass over the body
of their method, before any call in it, and before the body of a lambda in it is entered.
-/

/-- A slot stands for a variable, as far as the links of a file tell. -/
inductive StandsFor (pool : Compiled.Pool) (file : Source.File) : Alias → Prop where
  /-- A linked receiver or parameter. -/
  | slot {own : Source.Handle .variable} {link : Source.Link}
      (notLocal : (file.variableAt own).kind ≠ .localVariable)
      (linked : file.link? own = some link) :
      StandsFor pool file ⟨link.id, (file.variableAt own).symbol⟩
  /-- The variable that a linked call is made on. -/
  | base {call : Source.Handle .invocation} {base : Source.Handle .variable}
      {compiled : Compiled.Handle .method} (linked : file.isLinked call = true)
      (isBase : (file.invocationAt call).base = some base)
      (enclosing : file.linkedMethod? (file.invocationAt call).method = some compiled) :
      StandsFor pool file
        ⟨file.slotOf (pool.methodAt compiled).id base, (file.variableAt base).symbol⟩

/-! ### What fits -/

section Fitted

variable {setting : Setting} {file : Source.File}

/-- Only receivers and parameters are linked. -/
theorem Fitted.not_local (fitted : Fitted setting file) {own : Source.Handle .variable}
    {link : Source.Link} (linked : file.link? own.ref = some link) :
    (file.variableAt own).kind ≠ .localVariable := by
  have fits := fitted.fits own.ref link linked
  generalize isOwn : own.ref = element at fits
  generalize link.compiled = other at fits
  cases fits with
  | type | field | method | lambda => cases isOwn
  | @statement source _ _ _ _ fits =>
      cases fits with
      | receiver isReceiver _ =>
          obtain rfl := ref_injective isOwn
          exact fitted.formed.not_local_of_listed
            (List.mem_append_left _ (Option.mem_toList.mpr isReceiver))
      | param isParam _ _ =>
          obtain rfl := ref_injective isOwn
          exact fitted.formed.not_local_of_listed
            (List.mem_append_right _ (List.mem_of_getElem? isParam))
      | _ => cases isOwn

/-- The method of a linked call is linked. -/
theorem Enclosed.caller_linked {pool : Compiled.Pool} (enclosed : Enclosed pool file)
    {call : Source.Handle .invocation} (linked : file.isLinked call.ref = true) :
    ∃ compiled, file.linkedMethod? (file.invocationAt call).method = some compiled := by
  obtain ⟨link, found⟩ := Source.File.exists_link linked
  obtain ⟨source, compiled, owned, sourceLinked, _⟩ :=
    enclosed.statements call.ref link found nofun nofun nofun
  obtain rfl := Option.some.inj owned
  exact ⟨compiled, sourceLinked⟩

end Fitted

/-! ### What changes no slot -/

section Kept

variable {setting : Setting} {file later : Source.File} {found : Alias}

theorem slotOf_kept (extended : file.Extends later) {base : Source.Handle .variable}
    (baseKept : later.link? base.ref = file.link? base.ref) (methodId : String) :
    later.slotOf methodId base = file.slotOf methodId base := by
  rw [Source.File.slotOf, Source.File.slotOf, baseKept, extended.variableAt]

/-- What a slot stands for it still stands for later, if the variables that linked calls are made on
are not linked meanwhile. -/
theorem StandsFor.extend (fitted : Fitted setting file) (extended : file.Extends later)
    (basesKept : ∀ call base, file.isLinked (Source.Handle.ref call) = true →
      (file.invocationAt call).base = some base → later.link? base.ref = file.link? base.ref)
    (stands : StandsFor setting.pool file found) : StandsFor setting.pool later found := by
  cases stands with
  | slot notLocal linked =>
      rw [← extended.variableAt] at notLocal ⊢
      exact .slot notLocal (extended.links _ _ linked)
  | @base call base compiled linked isBase enclosing =>
      have sameCall := extended.invocationAt (fitted.formed.linked call.ref linked)
      rw [← slotOf_kept extended (basesKept call base linked isBase), ← extended.variableAt]
      rw [← sameCall] at isBase enclosing
      exact .base (extended.isLinked linked) isBase (extended.linkedMethod enclosing)

/-- What the base of a call stands for later it stands for already, if the call is linked and the
variable is not linked meanwhile. -/
theorem standsFor_of_base (fitted : Fitted setting file) (poolFormed : setting.pool.WellFormed)
    (extended : file.Extends later) {call : Source.Handle .invocation}
    {base : Source.Handle .variable} {compiled : Compiled.Handle .method}
    (linked : file.isLinked call.ref = true) (isBase : (later.invocationAt call).base = some base)
    (enclosing : later.linkedMethod? (later.invocationAt call).method = some compiled)
    (baseKept : later.link? base.ref = file.link? base.ref) :
    StandsFor setting.pool file
      ⟨later.slotOf (setting.pool.methodAt compiled).id base, (later.variableAt base).symbol⟩ := by
  rw [extended.invocationAt (fitted.formed.linked call.ref linked)] at isBase enclosing
  obtain ⟨caller, callerLinked⟩ := (fitted.enclosed poolFormed).caller_linked linked
  obtain rfl := Option.some.inj ((extended.linkedMethod callerLinked).symm.trans enclosing)
  rw [slotOf_kept extended baseKept, extended.variableAt]
  exact .base linked isBase callerLinked

end Kept

/-- A later file has no further links of variables, and none of calls that are made on variables. -/
structure KeepsSlots (file later : Source.File) : Prop where
  extended : file.Extends later
  vars : ∀ own : Source.Handle .variable, later.link? own.ref = file.link? own.ref
  bases : ∀ (call : Source.Handle .invocation) base, (later.invocationAt call).base = some base →
    later.invocationAt call = file.invocationAt call ∧ later.link? call.ref = file.link? call.ref

namespace KeepsSlots

variable {setting : Setting} {file later : Source.File} {state after : State} {found : Alias}

theorem refl (file : Source.File) : KeepsSlots file file :=
  ⟨.refl file, fun _ => rfl, fun _ _ _ => ⟨rfl, rfl⟩⟩

theorem of_gains {permitted : Source.Ref → Compiled.Ref → Prop}
    (gains : Gains permitted state after) (others : ∀ own other, permitted own other →
      own.kind ≠ .variable ∧ own.kind ≠ .invocation) : KeepsSlots state.file after.file where
  extended := gains.grows.extended
  vars _ := gains.link_eq fun other permission => (others _ other permission).1 rfl
  bases call _ _ := ⟨gains.relinked.invocationAt call,
    gains.link_eq fun other permission => (others _ other permission).2 rfl⟩

theorem basesInScope (kept : KeepsSlots file later) (inScope : file.BasesInScope) :
    later.BasesInScope := by
  intro call base isBase
  obtain ⟨sameCall, _⟩ := kept.bases call base isBase
  rw [sameCall] at isBase ⊢
  obtain ⟨holder, owned, within⟩ := inScope call base isBase
  refine ⟨holder, Eq.trans ?_ owned, kept.extended.within within⟩
  exact congrArg (fun record : Source.Variable => some record.method)
    (kept.extended.variableAt base)

theorem standsFor_iff (kept : KeepsSlots file later) (fitted : Fitted setting file)
    (poolFormed : setting.pool.WellFormed) :
    StandsFor setting.pool later found ↔ StandsFor setting.pool file found := by
  constructor
  · intro stands
    cases stands with
    | @slot own link notLocal linked =>
        rw [kept.extended.variableAt] at notLocal ⊢
        exact .slot notLocal ((kept.vars own).symm.trans linked)
    | @base call base compiled linked isBase enclosing =>
        rw [Source.File.isLinked, (kept.bases call base isBase).2] at linked
        exact standsFor_of_base fitted poolFormed kept.extended linked isBase enclosing
          (kept.vars base)
  · exact .extend fitted kept.extended fun _ base _ _ => kept.vars base

end KeepsSlots

/-! ### Passes -/

section Passes

variable {setting : Setting} {done : List Source.File} {start state later : State}

/-- A stand-in is no call that is made on a variable. -/
theorem Placed.base_of_later {file after : Source.File} {own : Source.Ref} {other : Compiled.Ref}
    (placed : Placed setting file after own other) {call : Source.Handle .invocation}
    {base : Source.Handle .variable} (isBase : (after.invocationAt call).base = some base) :
    after.invocationAt call = file.invocationAt call ∧ own ≠ call.ref := by
  cases placed with
  | field => exact ⟨rfl, nofun⟩
  | allocation => exact ⟨rfl, nofun⟩
  | call =>
      simp only [Source.File.invocationAt, Source.File.addPlaceholderInvocation,
        Source.File.pushInvocation, Source.File.changeMethod, Array.getElem?_push] at isBase ⊢
      split at isBase
      · cases isBase
      · next notLast =>
        rw [if_neg notLast]
        exact ⟨rfl, fun same => notLast (congrArg Source.Ref.index same).symm⟩

theorem Placed.keepsSlots {file : Source.File} {own : Source.Ref} {other : Compiled.Ref}
    (formed : state.file.WellFormed) (placed : Placed setting state.file file own other) :
    KeepsSlots state.file (({ state with file } : State).record setting own other).file := by
  have gains := @Gains.record (fun element _ => element = own) { state with file } setting own
    other rfl
  -- Nothing but the stand-in is linked.
  have linkKept {element : Source.Ref} (different : own ≠ element) :
      (({ state with file } : State).record setting own other).file.link? element =
        state.file.link? element := by
    rw [gains.link_eq fun _ same => different same.symm, Source.File.link?, placed.standsIn.links]
    rfl
  constructor
  case extended => exact (placed.standsIn.added formed).2.1.trans gains.grows.extended
  case vars =>
    refine fun held => linkKept fun same => ?_
    cases placed <;> cases same
  case bases =>
    intro call base isBase
    rw [gains.relinked.invocationAt] at isBase ⊢
    obtain ⟨same, different⟩ := placed.base_of_later isBase
    exact ⟨same, linkKept different⟩

/-- Of all passes, only those over statements change what slots stand for, and only these note
aliases. -/
theorem Pass.keepsSlots (sound : state.Sound setting done) (pass : Pass setting state later) :
    (KeepsSlots state.file later.file ∧ later.aliases = state.aliases) ∨
      ∃ pair : MethodPair, state.file.linkedMethod? pair.1 = some pair.2 ∧
        state.file.Untouched pair.1 ∧ later = state.matchStatements setting pair.1 pair.2 := by
  have ofMember {own : Source.Ref} (isMember : IsMember own) :
      own.kind ≠ .variable ∧ own.kind ≠ .invocation := by
    rcases isMember with isKind | isKind | isKind <;> rw [isKind] <;> exact ⟨nofun, nofun⟩
  cases pass with
  | @offer _ own other sought unlinked =>
      have gains := @Gains.record (fun own _ => IsMember own) state setting own other
        sought.isMember
      exact .inl ⟨.of_gains gains fun _ _ => ofMember, State.record_aliases _ _ _ _⟩
  | members fits links aliases =>
      exact .inl ⟨.of_gains links.gains fun own other permission =>
        ofMember (fits own other permission).2, aliases⟩
  | turn => exact .inl ⟨.refl _, rfl⟩
  | statements linked untouched => exact .inr ⟨_, linked, untouched, rfl⟩
  | outerThis linked =>
      refine .inl ⟨.of_gains State.matchOuterThis_gains ?_, ?_⟩
      · rintro _ _ ⟨access, rfl, _⟩
        exact ⟨nofun, nofun⟩
      · exact (State.matchOuterThis_adds (fun _ _ => trivial) _).aliases
  | arrays linked =>
      refine .inl ⟨.of_gains State.matchReflectiveArrays_gains ?_, ?_⟩
      · rintro own _ ⟨isAllocation, _⟩
        rw [isAllocation]
        exact ⟨nofun, nofun⟩
      · exact (State.matchReflectiveArrays_adds (fun _ _ => trivial) _).aliases
  | standIn placed opened =>
      exact .inl ⟨placed.keepsSlots sound.current.formed, State.record_aliases _ _ _ _⟩
  | resolve usage name =>
      exact .inl ⟨⟨Source.File.extends_resolveUsage state.file usage name, fun _ => rfl,
        fun _ _ _ => ⟨rfl, rfl⟩⟩, rfl⟩

/-! ### The statements of an untouched method -/

section Statements

variable {source : Source.Handle .method} {compiled : Compiled.Handle .method} {found : Alias}

/-- A call that is linked already is outside the method, and so are the variables in its scope. -/
theorem base_kept (sound : state.Sound setting done) (inScope : state.file.BasesInScope)
    (untouched : state.file.Untouched source)
    (links : LinkSteps setting (StatementFits setting state.file source compiled)
      (state.addPair (source, compiled)) later)
    {call : Source.Handle .invocation} {base : Source.Handle .variable}
    (isLinked : state.file.isLinked call.ref = true)
    (isBase : (state.file.invocationAt call).base = some base) :
    later.file.link? base.ref = state.file.link? base.ref := by
  refine links.gains.link_eq fun other fits => ?_
  obtain ⟨holder, owned, within⟩ := inScope call base isBase
  obtain rfl := Option.some.inj (owned.symm.trans (fits.owner sound.current.formed).2)
  cases (sound.unlinked_of_inside untouched ⟨_, rfl, within⟩).symm.trans isLinked

/-- What is noted with the links is what slots stand for. -/
theorem standsFor_of_noted (sound : state.Sound setting done)
    (linked : state.file.linkedMethod? source = some compiled)
    (links : LinkSteps setting (StatementFits setting state.file source compiled)
      (state.addPair (source, compiled)) later)
    (laterFitted : Fitted setting later.file)
    (noted : State.Named state later found ∨ State.BaseNoted setting.pool compiled later.file
      (state.file.methodAt source).invocations found) :
    StandsFor setting.pool later.file found := by
  have same : state.file.Relinked later.file := links.gains.relinked
  have extended : state.file.Extends later.file := links.gains.grows.extended
  rcases noted with ⟨own, link, _, isLinked, rfl⟩ | ⟨call, listed, base, isBase, isLinked, rfl⟩
  · rw [← extended.variableAt]
    exact .slot (laterFitted.not_local isLinked) isLinked
  · refine .base isLinked isBase ?_
    have owned :=
      (sound.current.formed.owner_of_listed .invocation (List.mem_map_of_mem listed)).2
    rw [same.invocationAt, Option.some.inj owned]
    exact extended.linkedMethod linked

/-- A call that is newly linked is one of the method. -/
theorem listed_of_links (formed : state.file.WellFormed)
    (links : LinkSteps setting (StatementFits setting state.file source compiled)
      (state.addPair (source, compiled)) later)
    {call : Source.Handle .invocation} (old : state.file.isLinked call.ref = false)
    (isLinked : later.file.isLinked call.ref = true) :
    call ∈ (state.file.methodAt source).invocations ∧
      (state.file.invocationAt call).method = source := by
  obtain ⟨link, isLink⟩ := Source.File.exists_link isLinked
  rcases links.gains.link_new call.ref link isLink with before | fits
  · exact absurd before (Source.File.not_link_of_unlinked old)
  obtain ⟨known, owned⟩ := fits.owner formed
  obtain ⟨other, isOther, sameIndex⟩ := List.mem_map.mp
    (formed.listed_of_owner .invocation nofun known owned)
  obtain rfl : other = call := congrArg Source.Handle.mk sameIndex
  exact ⟨isOther, Option.some.inj owned⟩

/-- What slots stand for afterwards they stood for before, or it is noted with the links. -/
theorem noted_of_standsFor (sound : state.Sound setting done) (inScope : state.file.BasesInScope)
    (linked : state.file.linkedMethod? source = some compiled)
    (untouched : state.file.Untouched source)
    (links : LinkSteps setting (StatementFits setting state.file source compiled)
      (state.addPair (source, compiled)) later)
    (stands : StandsFor setting.pool later.file found) :
    StandsFor setting.pool state.file found ∨ State.Named state later found ∨
      State.BaseNoted setting.pool compiled later.file (state.file.methodAt source).invocations
        found := by
  have same : state.file.Relinked later.file := links.gains.relinked
  have extended : state.file.Extends later.file := links.gains.grows.extended
  cases stands with
  | @slot own link notLocal isLinked =>
      rw [extended.variableAt] at notLocal ⊢
      cases old : state.file.isLinked own.ref with
      | true =>
          obtain ⟨oldLink, isOld⟩ := Source.File.exists_link old
          obtain rfl := Option.some.inj ((extended.links _ _ isOld).symm.trans isLinked)
          exact .inl (.slot notLocal isOld)
      | false => exact .inr (.inl ⟨own, link, old, isLinked, rfl⟩)
  | @base call base caller isLinked isBase enclosing =>
      cases old : state.file.isLinked call.ref with
      | true =>
          have wasBase : (state.file.invocationAt call).base = some base := by
            rw [← same.invocationAt]
            exact isBase
          exact .inl (standsFor_of_base sound.current sound.pool extended old isBase enclosing
            (base_kept sound inScope untouched links old wasBase))
      | false =>
          obtain ⟨listed, ofSource⟩ := listed_of_links sound.current.formed links old isLinked
          refine .inr (.inr ⟨call, listed, base, isBase, isLinked, ?_⟩)
          rw [same.invocationAt, ofSource, extended.linkedMethod linked] at enclosing
          rw [Option.some.inj enclosing]

end Statements

/-- What is known while a file is matched: which variables are in scope, and that the aliases are those
of the files before and those that the links of this file tell. -/
structure Told (setting : Setting) (start state : State) : Prop where
  inScope : state.file.BasesInScope
  aliases : ∀ found, found ∈ state.aliases ↔
    found ∈ start.aliases ∨ StandsFor setting.pool state.file found

/-- Matching the statements of an untouched method notes what slots stand for with the links that it
makes, and leaves alone what they stood for before. -/
theorem Told.matchStatements (told : Told setting start state) (sound : state.Sound setting done)
    {pair : MethodPair} (linked : state.file.linkedMethod? pair.1 = some pair.2)
    (untouched : state.file.Untouched pair.1) :
    Told setting start (state.matchStatements setting pair.1 pair.2) := by
  have pass : Pass setting state (state.matchStatements setting pair.1 pair.2) :=
    .statements linked untouched
  have finalSound := ((pass.steps sound).sound sound).current
  have opened := fun other => @State.Sound.opened setting done state sound _ _ linked untouched other
  obtain ⟨links, _⟩ := State.matchStatements_links sound.current.formed sound.pool untouched opened
  have noted := fun found => @State.mem_aliases_matchStatements setting state pair.1 pair.2 found
    sound.current.formed sound.pool untouched opened
  generalize state.matchStatements setting pair.1 pair.2 = final at finalSound links noted ⊢
  constructor
  case inScope =>
    obtain ⟨_, isFile⟩ := links.gains.relinked
    rw [isFile]
    exact told.inScope
  case aliases =>
    intro found
    refine (noted found).trans ?_
    rw [told.aliases found, or_assoc]
    refine or_congr_right ⟨?_, noted_of_standsFor sound told.inScope linked untouched links⟩
    rintro (stands | isNoted)
    · exact stands.extend sound.current links.gains.grows.extended
        fun _ _ => base_kept sound told.inScope untouched links
    · exact standsFor_of_noted sound linked links finalSound isNoted

/-- What is known before a pass is known after it. -/
theorem Told.pass (told : Told setting start state) (sound : state.Sound setting done)
    (pass : Pass setting state later) : Told setting start later := by
  rcases pass.keepsSlots sound with ⟨kept, sameAliases⟩ | ⟨pair, linked, untouched, isLater⟩
  · constructor
    case inScope => exact kept.basesInScope told.inScope
    case aliases =>
      intro found
      rw [sameAliases, kept.standsFor_iff sound.current sound.pool, told.aliases found]
  · rw [isLater]
    exact told.matchStatements sound linked untouched

/-- Where nothing is linked, no slot stands for anything. -/
theorem Told.of_unlinked (inScope : start.file.BasesInScope)
    (unlinked : ∀ element, start.file.isLinked element = false) : Told setting start start where
  inScope
  aliases found := by
    refine (or_iff_left ?_).symm
    rintro (⟨_, linked⟩ | ⟨linked⟩)
    · exact Source.File.not_link_of_unlinked (unlinked _) linked
    · cases (unlinked _).symm.trans linked

/-- After all passes over a file, the aliases are those of the files before and those that the links
of this file tell. -/
theorem Passes.told (startSound : start.Sound setting done) (before : Told setting start start)
    (passes : Passes setting start later) : Told setting start later := by
  induction passes with
  | refl => exact before
  | tail first pass inductionHypothesis =>
      exact inductionHypothesis.pass (Passes.sound_grows startSound first).1 pass

end Passes

/-! ### Runs -/

/-- The symbols of a slot are those that it is an alias with. -/
theorem AliasLog.mem_slots {log : AliasLog} {slot symbol : String} :
    (∃ symbols, (slot, symbols) ∈ log.slots ∧ symbol ∈ symbols) ↔ ⟨slot, symbol⟩ ∈ log := by
  rw [AliasLog.slots, Array.mem_def]
  constructor
  · rintro ⟨symbols, isSlot, isSymbol⟩
    obtain ⟨⟨_, group⟩, isGroup, isPair⟩ := List.mem_map.mp isSlot
    obtain ⟨rfl, rfl⟩ := Prod.mk.inj isPair
    obtain ⟨⟨_, _⟩, member, rfl⟩ := List.mem_map.mp (mem_distinct.mp isSymbol)
    obtain ⟨listed, rfl⟩ := (mem_group_iff isGroup).mp member
    exact listed
  · intro listed
    refine ⟨_, List.mem_map_of_mem (mem_groupBy_of_mem listed), mem_distinct.mpr ?_⟩
    exact List.mem_map_of_mem (List.mem_filter.mpr ⟨listed, decide_eq_true rfl⟩)

variable {plan : Plan} {files : List Source.File}

/-- The aliases that matching alone notes are those that the links of the files tell. -/
theorem mem_aliases_foldl (built : plan.pool.IsBuilt) (reachable : ∀ file ∈ files, file.Reachable)
    (unlinked : ∀ file ∈ files, ∀ element, file.isLinked element = false)
    (inScope : ∀ file ∈ files, file.BasesInScope) {found : Alias} :
    found ∈ (files.foldl (matchFile plan) {}).ledger.aliases ↔
      ∃ file ∈ (files.foldl (matchFile plan) {}).files, StandsFor plan.pool file found := by
  induction files using List.reverseRecOn with
  | nil => simp
  | append_singleton before file inductionHypothesis =>
      have isLast : file ∈ before ++ [file] := List.mem_append_right _ (List.mem_singleton_self _)
      rw [List.forall_mem_append, List.forall_mem_singleton] at reachable unlinked inScope
      have sound := foldl_sound built reachable.1 unlinked.1
      have earlier := inductionHypothesis reachable.1 unlinked.1 inScope.1
      rw [List.foldl_append, List.foldl_cons, List.foldl_nil]
      generalize before.foldl (matchFile plan) {} = outcome at sound earlier ⊢
      have startSound := sound.open_sound built.wellFormed reachable.2.wellFormed unlinked.2
      have passes := (State.matchTypes_journey startSound unlinked.2).1.passes
      have told := Passes.told startSound (.of_unlinked inScope.2 unlinked.2) passes
      refine (told.aliases found).trans ?_
      simp only [matchFile, List.mem_append, List.mem_singleton, or_and_right, exists_or,
        exists_eq_left]
      exact or_congr_left earlier

/-- Every run without facts over files that are read from documents notes exactly the aliases that its
links tell in the end.  A linked receiver or parameter gives one to the slot it is linked to.  A linked
call, the method of which is linked, gives one to the variable it is made on: to the slot that this is
linked to, else to one of its own name in the compiled method. -/
theorem run_aliases (built : plan.pool.IsBuilt) (noFacts : plan.facts = none)
    (lowered : ∀ file ∈ files, ∃ path document,
      Source.File.ofDocument path document = .ok file) :
    (∀ file ∈ (run plan files).files, ∀ call : Source.Handle .invocation,
      file.isLinked call.ref = true →
        ∃ compiled, file.linkedMethod? (file.invocationAt call).method = some compiled) ∧
      ∀ slot symbol,
        (∃ symbols, (slot, symbols) ∈ (run plan files).ledger.aliases.slots ∧ symbol ∈ symbols) ↔
          ∃ file ∈ (run plan files).files, StandsFor plan.pool file ⟨slot, symbol⟩ := by
  have reachable : ∀ file ∈ files, file.Reachable := fun file member => by
    obtain ⟨_, _, isLowered⟩ := lowered file member
    exact (Source.File.ofDocument_read isLowered).reachable
  have unlinked : ∀ file ∈ files, ∀ element, file.isLinked element = false := fun file member => by
    obtain ⟨_, _, isLowered⟩ := lowered file member
    exact Source.File.unlinked_of_lowered isLowered
  have inScope : ∀ file ∈ files, file.BasesInScope := fun file member => by
    obtain ⟨_, _, isLowered⟩ := lowered file member
    exact Source.File.basesInScope_of_lowered isLowered
  have noneRevealed : (run plan files).ledger.aliases =
      (files.foldl (matchFile plan) {}).ledger.aliases := by
    simp [run, revealedAliases, noFacts]
  constructor
  · intro file member call isLinked
    have fitted := (run_sound built reachable unlinked).fitted 0 file member
    exact (fitted.enclosed built.wellFormed).caller_linked isLinked
  · intro slot symbol
    rw [AliasLog.mem_slots, noneRevealed]
    exact mem_aliases_foldl built reachable unlinked inScope

/-! ### Variables of a method in the body of a lambda -/

/-- A method with a parameter and a local variable, on both of which calls are made in a lambda. -/
def capturedDocument : Source.Document where
  package := "p"
  types := [{
    name := some "A"
    methods := [{
      name := "f"
      params := [{ name := "b" }]
      body := [.localVariable "l" none none, .call "g" 0 (some "l") none none,
        .lambda [] [.call "h" 0 (some "b") none none, .call "k" 0 (some "l") none none] none] }] }]

def capturedFile : Source.File :=
  (Source.File.ofDocument "p/A.src.json" capturedDocument).toOption.getD default

/-- The compiled method and the one that implements the lambda, which both variables are passed to. -/
def capturedPlan : Plan :=
  let steps : List Compiled.Step :=
    [.type "p.A", .method ⟨0⟩ { name := "f", params := ["p.B"], returnType := "void" } {},
      .method ⟨0⟩ { name := "lambda$f$0", params := ["p.B", "p.B"], returnType := "void" } {},
      .lambda ⟨0⟩ "<p.A: void lambda$f$0(p.B,p.B)>" none,
      .invocation ⟨0⟩ "p.B" { name := "g", params := [], returnType := "void" } none,
      .invocation ⟨1⟩ "p.B" { name := "h", params := [], returnType := "void" } none,
      .invocation ⟨1⟩ "p.B" { name := "k", params := [], returnType := "void" } none]
  { pool := (({} : Compiled.Builder).performAll steps).1.finish.pool }

theorem capturedPlan_isBuilt : capturedPlan.pool.IsBuilt := by
  refine ⟨_, Compiled.Builder.Reachable.empty.performAll ?admitted, rfl⟩
  exact ⟨trivial, Nat.zero_lt_one, Nat.zero_lt_one, Nat.zero_lt_two, Nat.zero_lt_two,
    Nat.one_lt_two, Nat.one_lt_two, trivial⟩

theorem capturedFile_lowered : ∀ file ∈ [capturedFile], ∃ path document,
    Source.File.ofDocument path document = .ok file := by
  refine List.forall_mem_singleton.mpr ⟨"p/A.src.json", capturedDocument, ?_⟩
  have succeeds : (Source.File.ofDocument "p/A.src.json" capturedDocument).toOption.isSome = true := by
    decide +kernel
  unfold capturedFile
  generalize Source.File.ofDocument "p/A.src.json" capturedDocument = answer at succeeds ⊢
  cases answer with
  | ok => rfl
  | error => cases succeeds

/-- In the lambda, the parameter of the method keeps its slot, and the local variable gets one of the
compiled method there. -/
theorem run_aliases_captured :
    (run capturedPlan [capturedFile]).ledger.aliases.slots =
        [("<p.A: void f(p.B)>/@this", ["p.A.f/this"]),
          ("<p.A: void f(p.B)>/@parameter0", ["p.A.f/b"]), ("<p.A: void f(p.B)>/l", ["p.A.f/l"]),
          ("<p.A: void lambda$f$0(p.B,p.B)>/l", ["p.A.f/l"])] ∧
      ∀ slot symbol,
        (∃ symbols, (slot, symbols) ∈ (run capturedPlan [capturedFile]).ledger.aliases.slots ∧
          symbol ∈ symbols) ↔
          ∃ file ∈ (run capturedPlan [capturedFile]).files,
            StandsFor capturedPlan.pool file ⟨slot, symbol⟩ :=
  ⟨by decide +kernel, (run_aliases capturedPlan_isBuilt rfl capturedFile_lowered).2⟩

end Correlate.Matching
