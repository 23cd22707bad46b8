/-
Module: Correlate.Proofs.Matching.Types
Purpose: What matching the types of a file comes to.
Main exports: Earlier, Covers, Journey, State.matchMembers_journey, State.TypeSettled,
  State.matchTypes_journey
-/
import Correlate.Proofs.Matching.Courses
import Correlate.Proofs.Matching.Exploration

namespace Correlate.Matching

/-- A type comes before another one in the order in which a run goes through them. -/
def Earlier (handle other : SourceHandle) : Prop :=
  handle.file < other.file ∨
    handle.file = other.file ∧ handle.element.index < other.element.index

theorem Earlier.asymm {handle other : SourceHandle} (earlier : Earlier handle other) :
    ¬ Earlier other handle := by
  unfold Earlier at *
  omega

theorem Earlier.irrefl (handle : SourceHandle) : ¬ Earlier handle handle :=
  fun earlier => earlier.asymm earlier

/-! ### Journeys -/

/-- Whatever is owed for a link that is made on the way is taken on the way. -/
structure Covers (pool : Compiled.Pool) (state later : State) : Prop where
  kept : ∀ other, state.isConsumed other = true → later.isConsumed other = true
  taken : ∀ other, Owed pool later.file other →
    Owed pool state.file other ∨ later.isConsumed other = true

namespace Covers

variable {pool : Compiled.Pool} {state later final : State}

theorem of_same (file_kept : later.file = state.file) (registry_kept : later.registry = state.registry) :
    Covers pool state later where
  kept other taken := by
    rw [State.isConsumed, registry_kept]
    exact taken
  taken other owed := .inl (file_kept ▸ owed)

theorem trans (first : Covers pool state later) (second : Covers pool later final) :
    Covers pool state final where
  kept other taken := second.kept other (first.kept other taken)
  taken other owed := by
    rcases second.taken other owed with before | taken
    · exact (first.taken other before).imp_right (second.kept other)
    · exact .inr taken

end Covers

/-- Steps with which nothing is left undone: the bodies of the linked methods are entered, and what is
owed is taken. -/
structure Journey (setting : Setting) (start : State) (allowed : Source.Ref → Prop)
    (state later : State) : Prop where
  steps : Steps setting allowed state later
  passes : Passes setting state later
  explores : Explores setting start state later
  covers : Covers setting.pool state later

namespace Journey

variable {setting : Setting} {start state later final : State} {allowed : Source.Ref → Prop}

/-- What changes neither the file nor what is taken. -/
theorem of_same (steps : Steps setting (fun _ => False) state later)
    (passes : Passes setting state later) (file_kept : later.file = state.file)
    (registry_kept : later.registry = state.registry) : Journey setting start allowed state later where
  steps := steps.mono fun _ => False.elim
  passes := passes
  explores := .of_steps steps fun _ => False.elim
  covers := .of_same file_kept registry_kept

theorem refl (state : State) : Journey setting start allowed state state :=
  .of_same .refl .refl rfl rfl

theorem trans (first : Journey setting start allowed state later)
    (second : Journey setting start allowed later final) :
    Journey setting start allowed state final where
  steps := first.steps.trans second.steps
  passes := first.passes.trans second.passes
  explores := first.explores.trans second.explores second.steps.any
  covers := first.covers.trans second.covers

theorem any (journey : Journey setting start allowed state later) :
    Journey setting start anyElement state later :=
  { journey with steps := journey.steps.any }

end Journey

namespace State

variable {setting : Setting} {done : List Source.File} {start state : State}
  {type : Source.Handle .type} {compiledType : Compiled.Handle .type}

/-! ### The bodies of a type -/

/-- The bodies of the methods of a type are entered one after the other. -/
theorem matchBodies_excursion (startSound : start.Sound setting done)
    (before : Steps setting anyElement start state)
    (untouched : ∀ method ∈ (state.file.typeAt type).methods, state.file.Untouched method) :
    let entry : State := { state with pairs := [] }
    let final := state.matchBodies setting type
    Excursion setting start (fun element => (state.file.owningMethod? element).isSome = true)
        entry final ∧
      ∀ method ∈ (state.file.typeAt type).methods, ∀ compiled,
        state.file.linkedMethod? method = some compiled →
        Visited setting start final method compiled ∧ (method, compiled) ∈ final.pairs := by
  have sound := before.sound startSound
  have formed := sound.current.formed
  let entry : State := { state with pairs := [] }
  have entered : Steps setting anyElement state entry := .single .turn
  have pass := @foldl_stages _ _ entry (matchMethodBody setting)
    (fun method => Excursion setting start (state.file.Inside method))
    (Excursion setting start fun element => (state.file.owningMethod? element).isSome = true)
    (fun method current => current.file.Untouched method)
    (fun method current => ∀ compiled, state.file.linkedMethod? method = some compiled →
      Visited setting start current method compiled ∧ (method, compiled) ∈ current.pairs)
    .refl Excursion.trans (state.file.typeAt type).methods
  refine pass ?weaker ?advance ?kept ?lasting untouched
  case weaker =>
    refine fun method _ current later => Excursion.mono fun element inside => ?_
    obtain ⟨holder, owned, _⟩ := inside
    rw [owned]
    rfl
  case advance =>
    intro method listed current reached clear
    have currentBefore := before.trans (entered.trans reached.steps.any)
    have extended := (reached.steps.grows (entered.sound sound)).extended
    have same : state.file.Relinked current.file := reached.relinked
    unfold matchMethodBody
    split
    · next compiled linked =>
      have outermost : current.file.nestingDepth method = 0 := by
        rw [same.nestingDepth, formed.nestingDepth_of_listed listed]
      have budget : maxLambdaNesting + 1 =
          maxLambdaNesting + 1 - current.file.nestingDepth method := by
        rw [outermost]
        rfl
      obtain ⟨moves, _, remembered⟩ :=
        matchBody_explores startSound _ currentBefore budget linked clear
      refine ⟨moves.mono fun element => same.inside.mp, fun other isLinked => ?_⟩
      obtain rfl := Option.some.inj (linked.symm.trans (extended.linkedMethod isLinked))
      refine ⟨⟨current, currentBefore, linked, clear, budget ▸ .refl⟩, (remembered ?_).1⟩
      exact outermost ▸ Nat.zero_le _
    · next unlinked =>
      refine ⟨.refl _, fun other isLinked => ?_⟩
      cases unlinked.symm.trans (extended.linkedMethod isLinked)
  case kept =>
    refine (formed.methods_nodup type).imp_of_mem
      fun {method next} _ isNext different current later reached moves clear element owned => ?_
    have same : state.file.Relinked later.file := reached.relinked.trans moves.relinked
    rw [moves.relinked.owningMethod] at owned
    apply moves.steps.unlinked (clear element owned)
    rintro ⟨holder, isHolder, within⟩
    rw [← moves.relinked.owningMethod, same.owningMethod] at owned
    obtain rfl := Option.some.inj (owned.symm.trans isHolder)
    -- A declared method is inside no other.
    cases within with
    | refl => exact different rfl
    | tail _ inside => cases (formed.parent_of_listed isNext).symm.trans inside
  case lasting =>
    intro method _ current later _ moves ends compiled linked
    obtain ⟨visited, remembered⟩ := ends compiled linked
    exact ⟨visited.later moves.steps.any, moves.collects.kept _ remembered⟩

/-! ### Members -/

/-- A method that is no initializer is matched, or something was noted. -/
def MethodSettled (file : Source.File) (state : State) (own : Source.Handle .method) : Prop :=
  (file.methodAt own).kind ≠ .instanceInitializer → (file.methodAt own).implicit = false →
    ReservedName.isConstructorOrInitializer (file.methodAt own).name = false → state.Settled own.ref

theorem MethodSettled.of_extends {file later : Source.File} {own : Source.Handle .method}
    (extended : file.Extends later) (settled : MethodSettled later state own) :
    MethodSettled file state own := by
  unfold MethodSettled at settled
  rw [extended.methodKind, extended.readMethod Source.Method.implicit (fun _ _ _ => rfl),
    extended.readMethod Source.Method.name (fun _ _ _ => rfl)] at settled
  exact settled

/-- The members of a type, then the bodies of its methods, then the rest: every method that is linked on
the way is one of the type or one that a body leads to. -/
theorem journey_of_bodies {named entered final : State} {listed : List (Source.Handle .method)}
    {inside : Source.Ref → Prop} (startSound : start.Sound setting done)
    (before : Steps setting anyElement start state)
    (members : Course setting
      (fun element => element.kind = .field ∨ ∃ own ∈ listed, element = own.ref) state named)
    (bodies : Excursion setting start inside { named with pairs := [] } entered)
    (noTypes : ∀ element, inside element → element.kind ≠ .type)
    (visited : ∀ method ∈ listed, ∀ compiled, named.file.linkedMethod? method = some compiled →
      Visited setting start entered method compiled ∧ (method, compiled) ∈ entered.pairs)
    (rest : Course setting IsDetail entered final)
    (sitesTaken : ∀ pair ∈ entered.pairs, SitesTaken setting.pool pair.2 final) :
    Journey setting start (fun element => element.kind ≠ .type) state final := by
  have sound := before.sound startSound
  have steps : Steps setting (fun element => element.kind ≠ .type) state final := by
    refine (members.steps.mono ?_).trans (.head .turn ((bodies.steps.mono noTypes).trans
      (rest.steps.mono fun _ detail => detail.1)))
    rintro element (isField | ⟨own, _, rfl⟩)
    · rw [isField]
      exact nofun
    · exact nofun
  have depth (source : Source.Handle .method) :
      final.file.nestingDepth source = state.file.nestingDepth source :=
    (steps.grows sound).extended.nestingDepth source
  have entered_depth (source : Source.Handle .method) :
      final.file.nestingDepth source = entered.file.nestingDepth source := by
    have bodySteps : Steps setting anyElement named entered := .head .turn bodies.steps.any
    have enteredSound := bodySteps.sound (members.steps.sound sound)
    exact (rest.steps.grows enteredSound).extended.nestingDepth source
  have linkedBefore {source : Source.Handle .method} {compiled : Compiled.Handle .method}
      (isLinked : named.file.linkedMethod? source = some compiled) :
      state.file.linkedMethod? source = some compiled ∨
        Visited setting start entered source compiled ∧ (source, compiled) ∈ entered.pairs := by
    obtain ⟨id, found⟩ := Source.File.linkedMethod_iff.mp isLinked
    rcases members.steps.link_new _ _ found with isOld | isField | ⟨own, isListed, isOwn⟩
    · exact .inl (Source.File.linkedMethod_iff.mpr ⟨id, isOld⟩)
    · cases isField
    · obtain rfl := ref_injective isOwn
      exact .inr (visited source isListed compiled isLinked)
  have linkedInBodies {source : Source.Handle .method} {compiled : Compiled.Handle .method}
      (isLinked : final.file.linkedMethod? source = some compiled) :
      entered.file.linkedMethod? source = some compiled := by
    obtain ⟨id, found⟩ := Source.File.linkedMethod_iff.mp isLinked
    rcases rest.steps.link_new _ _ found with isOld | isDetail
    · exact Source.File.linkedMethod_iff.mpr ⟨id, isOld⟩
    · exact absurd rfl isDetail.2
  refine ⟨steps, members.passes.trans (.head .turn (bodies.passes.trans rest.passes)), ?_, ?_, ?_⟩
  · intro source compiled isLinked
    rcases bodies.explores source compiled (linkedInBodies isLinked) with isNamed | visitedInside
    · exact (linkedBefore isNamed).imp_right fun both => both.1.later rest.steps.any
    · exact .inr (visitedInside.later rest.steps.any)
  · exact fun other => (steps.grows sound).consumed other
  · intro other owed
    cases owed with
    | @field holder compiledHolder field isLinked compiledListed =>
        obtain ⟨id, found⟩ := Source.File.linkedType_iff.mp isLinked
        rcases steps.link_new _ _ found with isOld | notType
        · exact .inl (.field (Source.File.linkedType_iff.mpr ⟨id, isOld⟩) compiledListed)
        · exact absurd rfl notType
    | @site source compiled _ isLinked shallow isSite =>
        have remembered : state.file.linkedMethod? source = some compiled ∨
            (source, compiled) ∈ entered.pairs := by
          rcases bodies.collects.gathered source compiled (linkedInBodies isLinked)
            (entered_depth source ▸ shallow) with isNamed | member
          · exact (linkedBefore isNamed).imp_right And.right
          · exact .inr member
        rcases remembered with isOld | member
        · exact .inl (.site isOld (depth source ▸ shallow) isSite)
        · exact .inr (sitesTaken _ member other isSite)

/-- The methods of two matched types are matched, and no body is entered. -/
theorem matchMethods_course (sound : state.Sound setting done)
    (linked : state.file.linkedType? type = some compiledType)
    (unlinked : ∀ own ∈ (state.file.typeAt type).methods, state.file.isLinked own.ref = false) :
    let final := state.matchMethods setting type compiledType
    Course setting (fun element => ∃ own ∈ (state.file.typeAt type).methods, element = own.ref)
        state final ∧
      (∀ method : Source.Handle .method, state.file.isLinked method.ref = false →
        final.file.Untouched method) ∧
      ∀ own ∈ (state.file.typeAt type).methods, MethodSettled state.file final own := by
  have formed := sound.current.formed
  obtain ⟨links, ends⟩ := @matchMethods_links setting state type compiledType formed unlinked
  have course : Course setting
      (fun element => ∃ own ∈ (state.file.typeAt type).methods, element = own.ref) state
      (state.matchMethods setting type compiledType) := by
    refine Course.of_links links formed ?_ (matchMethods_adds fun _ _ => trivial).aliases
    rintro _ _ ⟨own, listed, other, compiledListed, rfl, rfl, noBlock, denoted⟩
    exact ⟨.method linked listed compiledListed noBlock denoted, .inr (.inr rfl), own, listed, rfl⟩
  refine ⟨course, fun method isUnlinked element owned => ?_, ends⟩
  rw [links.gains.relinked.owningMethod] at owned
  apply course.steps.unlinked (sound.untouched_of_unlinked isUnlinked element owned)
  rintro ⟨own, listed, rfl⟩
  cases (formed.parent_of_listed listed).symm.trans owned

/-- Matching the members of two matched types and everything inside. -/
theorem matchMembers_journey (startSound : start.Sound setting done)
    (before : Steps setting anyElement start state)
    (linked : state.file.linkedType? type = some compiledType)
    (fieldsUnlinked : ∀ own ∈ (state.file.typeAt type).fields, state.file.isLinked own.ref = false)
    (methodsUnlinked : ∀ own ∈ (state.file.typeAt type).methods,
      state.file.isLinked own.ref = false) :
    let final := state.matchMembers setting type compiledType
    Journey setting start (fun element => element.kind ≠ .type) state final ∧
      FieldsTaken setting.pool compiledType final ∧
      ∀ own ∈ (state.file.typeAt type).methods, MethodSettled state.file final own := by
  have sound := before.sound startSound
  -- Fields
  let fielded := state.matchFields setting type compiledType
  obtain ⟨fields, fieldsTaken⟩ := matchFields_course sound linked fieldsUnlinked
  have fieldedSound : fielded.Sound setting done := fields.steps.sound sound
  have fieldedExtends : state.file.Extends fielded.file := (fields.steps.grows sound).extended
  have fieldedUnlinked : ∀ own ∈ (fielded.file.typeAt type).methods,
      fielded.file.isLinked own.ref = false := by
    intro own listed
    rw [fieldedExtends.typeMethods] at listed
    exact fields.steps.unlinked (methodsUnlinked own listed) nofun
  -- Methods
  let named := fielded.matchMethods setting type compiledType
  obtain ⟨methods, untouched, methodEnds⟩ :=
    matchMethods_course fieldedSound (fieldedExtends.linkedType linked) fieldedUnlinked
  have sameMethods : (named.file.typeAt type).methods = (fielded.file.typeAt type).methods :=
    (methods.steps.grows fieldedSound).extended.typeMethods type
  have members : Course setting (fun element => element.kind = .field ∨
      ∃ own ∈ (fielded.file.typeAt type).methods, element = own.ref) state named :=
    (fields.mono fun _ => .inl).trans (methods.mono fun _ => .inr)
  have namedBefore : Steps setting anyElement start named := before.trans members.steps.any
  have namedSound := namedBefore.sound startSound
  -- Bodies
  let entered := named.matchBodies setting type
  obtain ⟨bodies, visited⟩ := @matchBodies_excursion setting done start named type startSound
    namedBefore fun method listed => untouched method (fieldedUnlinked method (sameMethods ▸ listed))
  have bodySteps : Steps setting anyElement named entered := .head .turn bodies.steps.any
  have enteredSound : entered.Sound setting done := bodySteps.sound namedSound
  -- What is left
  obtain ⟨details, detailsTaken⟩ := settleBodies_course enteredSound (bodies.collects.shallow nofun)
  have usages : Course setting IsDetail _ (state.matchMembers setting type compiledType) :=
    resolveUsages_course _ _ _
  have rest := details.trans usages
  have grown := rest.steps.grows enteredSound
  have sitesTaken : ∀ pair ∈ entered.pairs,
      SitesTaken setting.pool pair.2 (state.matchMembers setting type compiledType) := by
    intro pair member other isSite
    have usagesGrown := usages.steps.grows (details.steps.sound enteredSound)
    exact usagesGrown.consumed other (detailsTaken pair member other isSite)
  rw [sameMethods] at visited
  refine ⟨journey_of_bodies startSound before members bodies ?_ visited rest sitesTaken,
    fun other listed => ?_, fun own listed => ?_⟩
  · rintro ⟨kind, i⟩ isOwned rfl
    cases isOwned
  · have namedTaken := (methods.steps.grows fieldedSound).consumed _ (fieldsTaken other listed)
    exact grown.consumed _ ((bodySteps.grows namedSound).consumed _ namedTaken)
  · apply MethodSettled.of_extends fieldedExtends
    intro noBlock declared notReserved
    have settled := methodEnds own (by rw [fieldedExtends.typeMethods]; exact listed) noBlock declared
      notReserved
    exact grown.settled ((bodySteps.grows namedSound).settled settled)

/-! ### Types -/

/-- What the turn of a type brings it to: where the pool has a type of its name, either they are
matched, or an earlier element has taken the compiled type. -/
def TypeSettled (setting : Setting) (done : List Source.File) (file : Source.File)
    (type : Source.Handle .type) (state : State) : Prop :=
  ∀ other, setting.pool.typeNamed? (file.typeAt type).binaryName = some other →
    (state.file.linkedType? type = some other ∧
      ∀ own ∈ (file.typeAt type).methods, MethodSettled file state own) ∨
    ∃ handle link, linkAt (done ++ [state.file]) handle = some link ∧ link.compiled = other.ref ∧
      Earlier handle ⟨done.length, type.ref⟩

namespace TypeSettled

theorem of_extends {file later : Source.File} (extended : file.Extends later)
    (settled : TypeSettled setting done later type state) :
    TypeSettled setting done file type state := by
  intro other found
  rw [← extended.binaryName] at found
  refine (settled other found).imp_left fun matched => ⟨matched.1, fun own listed => ?_⟩
  exact .of_extends extended (matched.2 own (by rw [extended.typeMethods]; exact listed))

theorem grow {file : Source.File} {later : State} (grown : state.Grows later)
    (settled : TypeSettled setting done file type state) :
    TypeSettled setting done file type later := by
  intro other found
  rcases settled other found with ⟨linked, methods⟩ | ⟨handle, link, linked, same, earlier⟩
  · exact .inl ⟨grown.extended.linkedType linked, fun own listed noBlock declared named =>
      grown.settled (methods own listed noBlock declared named)⟩
  · refine .inr ⟨handle, link, linkAt_append_single.mpr ?_, same, earlier⟩
    exact (linkAt_append_single.mp linked).imp_right fun last =>
      ⟨last.1, grown.extended.links _ _ last.2⟩

end TypeSettled

/-- The members of a type without a link have none. -/
theorem Sound.members_unlinked (sound : state.Sound setting done)
    (unlinked : state.file.isLinked type.ref = false) :
    (∀ own ∈ (state.file.typeAt type).fields, state.file.isLinked own.ref = false) ∧
      ∀ own ∈ (state.file.typeAt type).methods, state.file.isLinked own.ref = false := by
  have formed := sound.current.formed
  constructor
  · intro own listed
    rw [Bool.eq_false_iff]
    intro linked
    obtain ⟨link, found⟩ := Source.File.exists_link linked
    obtain ⟨holder, _, _, _, holderLinked, ownListed, _⟩ :=
      (sound.current.fits own.ref link found).of_ownField
    obtain rfl : holder = type :=
      (formed.field_of_listed ownListed).2.symm.trans (formed.field_of_listed listed).2
    exact Source.File.not_linkedType_of_unlinked unlinked holderLinked
  · intro own listed
    rw [Bool.eq_false_iff]
    intro linked
    obtain ⟨link, found⟩ := Source.File.exists_link linked
    obtain ⟨_, _, ⟨holder, _, holderLinked, ownListed, _⟩ | ⟨outer, _, _, _, lambdaListed, _⟩⟩ :=
      (sound.current.fits own.ref link found).of_ownMethod
    · obtain rfl : holder = type :=
        (formed.method_of_listed ownListed).2.2.symm.trans (formed.method_of_listed listed).2.2
      exact Source.File.not_linkedType_of_unlinked unlinked holderLinked
    · have inside := (formed.mem_lambdas.mp lambdaListed).2
      rw [formed.parent_of_listed listed] at inside
      cases inside

/-- Matching a type covers what matching its members covers. -/
theorem covers_of_matched {final : State} {own : Source.Handle .type}
    {other : Compiled.Handle .type} (accepted : state.accepts own.ref other.ref = true)
    (covers : Covers setting.pool (state.record setting own.ref other.ref) final)
    (fieldsTaken : FieldsTaken setting.pool other final) : Covers setting.pool state final := by
  have same := record_relinked setting state own.ref other.ref
  constructor
  case kept =>
    intro element taken
    exact covers.kept element ((isConsumed_record accepted element).mpr (.inr taken))
  case taken =>
    intro element owed
    rcases covers.taken element owed with matched | taken
    · cases matched with
      | @field holder compiledHolder field isLinked listed =>
          obtain ⟨id, found⟩ := Source.File.linkedType_iff.mp isLinked
          rw [link_record accepted] at found
          split at found
          · have isOther := congrArg Source.Link.compiled (Option.some.inj found)
            obtain rfl := compiledRef_injective isOther
            exact .inr (fieldsTaken field listed)
          · exact .inl (.field (Source.File.linkedType_iff.mpr ⟨id, found⟩) listed)
      | @site source compiled _ isLinked shallow isSite =>
          obtain ⟨id, found⟩ := Source.File.linkedMethod_iff.mp isLinked
          rw [link_record accepted, if_neg nofun] at found
          rw [same.nestingDepth] at shallow
          exact .inl (.site (Source.File.linkedMethod_iff.mpr ⟨id, found⟩) shallow isSite)
    · exact .inr taken

/-- A type that may be matched is linked, and its members are matched. -/
theorem enterType_journey {other : Compiled.Handle .type} (startSound : start.Sound setting done)
    (before : Steps setting anyElement start state)
    (sought : Sought setting state.file type.ref other.ref)
    (unlinked : state.file.isLinked type.ref = false)
    (accepted : state.accepts type.ref other.ref = true) :
    let final := (state.record setting type.ref other.ref).matchMembers setting type other
    Journey setting start (fun element => element = type.ref ∨ element.kind ≠ .type) state final ∧
      final.file.linkedType? type = some other ∧
      ∀ own ∈ (state.file.typeAt type).methods, MethodSettled state.file final own := by
  have sound := before.sound startSound
  let matched := state.record setting type.ref other.ref
  have linked := @link_record setting _ _ _ accepted
  have same : state.file.Relinked matched.file := record_relinked _ _ _ _
  have taken : Steps setting (fun element => element = type.ref) state matched :=
    .single (.accept sought.fits rfl accepted)
  have matchedBefore : Steps setting anyElement start matched := before.trans taken.any
  have matchedLinked : matched.file.linkedType? type = some other :=
    Source.File.linkedType_iff.mpr ⟨_, (linked _).trans (if_pos rfl)⟩
  have still {element : Source.Ref} (different : element.kind ≠ .type)
      (stillOpen : state.file.isLinked element = false) :
      matched.file.isLinked element = false :=
    taken.unlinked stillOpen fun isType => different (isType ▸ rfl)
  obtain ⟨fields, methods⟩ := sound.members_unlinked unlinked
  obtain ⟨members, fieldsTaken, settled⟩ :=
    matchMembers_journey startSound matchedBefore matchedLinked
      (fun own listed => still (by decide : Source.Kind.field ≠ .type)
        (fields own (by rw [← same.typeAt]; exact listed)))
      (fun own listed => still (by decide : Source.Kind.method ≠ .type)
        (methods own (by rw [← same.typeAt]; exact listed)))
  refine ⟨⟨?_, ?_, ?_, ?_⟩, ?_, fun own listed => ?_⟩
  · exact (taken.mono fun _ => .inl).trans (members.steps.mono fun _ => .inr)
  · exact .head (.offer sought unlinked) members.passes
  · refine Explores.trans (.of_steps taken ?_) members.explores members.steps.any
    rintro _ rfl
    exact (by decide : Source.Kind.type ≠ .method)
  · exact covers_of_matched accepted members.covers fieldsTaken
  · have grown := members.steps.grows (matchedBefore.sound startSound)
    exact grown.extended.linkedType matchedLinked
  · refine .of_extends (taken.grows sound).extended (settled own ?_)
    rw [same.typeAt]
    exact listed

/-- While no type at or after a type is linked, what has taken its compiled type is earlier. -/
theorem Sound.earlier_of_taken {other : Compiled.Handle .type} (sound : state.Sound setting done)
    (unlinked : ∀ later : Source.Handle .type, type.index ≤ later.index →
      state.file.isLinked later.ref = false)
    (taken : state.isConsumed other.ref = true) :
    ∃ handle link, linkAt (done ++ [state.file]) handle = some link ∧ link.compiled = other.ref ∧
      Earlier handle ⟨done.length, type.ref⟩ := by
  obtain ⟨handle, link, linked, isOther⟩ := sound.accounted.isConsumed_iff.mp taken
  refine ⟨handle, link, linked, isOther, ?_⟩
  obtain ⟨i, element⟩ := handle
  rcases linkAt_append_single.mp linked with inDone | ⟨rfl, here⟩
  · refine .inl (Nat.lt_of_not_le fun unknown => ?_)
    cases (linkAt_of_le unknown).symm.trans inDone
  · refine .inr ⟨rfl, Nat.lt_of_not_le fun later => ?_⟩
    obtain ⟨holder, rfl, _⟩ := (isOther ▸ sound.current.fits _ _ here).of_type
    exact Source.File.not_link_of_unlinked (unlinked holder later) here

/-- The turn of a type, while no type at or after it is linked. -/
theorem matchType_journey (startSound : start.Sound setting done)
    (before : Steps setting anyElement start state) (known : type.index < state.file.types.size)
    (unlinked : ∀ later : Source.Handle .type, type.index ≤ later.index →
      state.file.isLinked later.ref = false) :
    let final := state.matchType setting type
    Journey setting start (fun element => element = type.ref ∨ element.kind ≠ .type) state final ∧
      TypeSettled setting done state.file type final := by
  have sound := before.sound startSound
  have typeUnlinked := unlinked type (Nat.le_refl _)
  dsimp only
  unfold matchType
  split
  · next other named =>
    have sought : Sought setting state.file type.ref other.ref := .type known named
    dsimp only
    split
    · next accepted =>
      obtain ⟨journey, linked, settled⟩ :=
        enterType_journey startSound before sought typeUnlinked accepted
      refine ⟨journey, fun found isFound => .inl ?_⟩
      obtain rfl := Option.some.inj (named.symm.trans isFound)
      exact ⟨linked, settled⟩
    · next rejected =>
      have taken : state.isConsumed other.ref = true :=
        consumed_of_rejected typeUnlinked (Bool.eq_false_iff.mpr rejected)
      have noted := @record_of_rejected setting state type.ref other.ref (rejected_of_consumed taken)
      have step : Step setting (fun _ => False) state (state.record setting type.ref other.ref) :=
        .reject sought.fits typeUnlinked taken
      refine ⟨.of_same (.single step) (.single (.offer sought typeUnlinked)) ?_ ?_,
        fun found isFound => .inr ?_⟩
      · rw [noted]
        rfl
      · rw [noted]
        rfl
      · obtain rfl := Option.some.inj (named.symm.trans isFound)
        rw [noted]
        exact sound.earlier_of_taken unlinked taken
  · next unknown =>
    refine ⟨.refl state, fun found isFound => ?_⟩
    cases unknown.symm.trans isFound

/-- Matching all types of a file without links leaves nothing undone, and every type is settled. -/
theorem matchTypes_journey (startSound : start.Sound setting done)
    (unlinked : ∀ element, start.file.isLinked element = false) :
    let final := start.matchTypes setting
    Journey setting start anyElement start final ∧
      ∀ type : Source.Handle .type, type.index < start.file.types.size →
        TypeSettled setting done start.file type final := by
  have pass := @foldl_stages _ _ start (matchType setting)
    (fun type => Journey setting start fun element => element = type.ref ∨ element.kind ≠ .type)
    (Journey setting start anyElement)
    (fun type state => ∀ later : Source.Handle .type, type.index ≤ later.index →
      state.file.isLinked later.ref = false)
    (fun type state => TypeSettled setting done start.file type state) .refl Journey.trans
    start.file.typeHandles
  obtain ⟨journey, settled⟩ := by
    refine pass ?weaker ?advance ?kept ?lasting fun _ _ later _ => unlinked later.ref
    case weaker => exact fun _ _ _ _ => Journey.any
    case advance =>
      intro type member state reached clear
      have extended := (reached.steps.grows startSound).extended
      obtain ⟨i, bound, rfl⟩ := List.mem_map.mp member
      have known : i < state.file.types.size := extended.typeCount ▸ List.mem_range.mp bound
      obtain ⟨journey, typeSettled⟩ := matchType_journey startSound reached.steps known clear
      exact ⟨journey, typeSettled.of_extends extended⟩
    case kept =>
      have ascending : start.file.typeHandles.Pairwise fun type next => type.index < next.index :=
        List.pairwise_map.mpr (List.pairwise_lt_range.imp id)
      refine ascending.imp fun {type next} before state later _ moves clear other after => ?_
      apply moves.steps.unlinked (clear other after)
      rintro (same | notType)
      · obtain rfl := ref_injective same
        exact absurd (Nat.lt_of_lt_of_le before after) (Nat.lt_irrefl _)
      · exact notType rfl
    case lasting =>
      exact fun type _ state later reached moves settled =>
        settled.grow (moves.steps.grows (reached.steps.sound startSound))
  refine ⟨journey, fun type known => settled type ?_⟩
  exact List.mem_map.mpr ⟨type.index, List.mem_range.mpr known, rfl⟩

end State

end Correlate.Matching
