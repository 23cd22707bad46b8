/-
Module: Correlate.Proofs.Matching.AbreastTypes
Purpose: A strict and a lossy run match the types of a file.
Main exports: Together.settleBodies, Abreast.matchFields, Abreast.enter, Beside, Beside.matchMembers,
  Beside.matchType, Beside.matchTypes
-/
import Correlate.Proofs.Matching.AbreastBodies
import Correlate.Proofs.Matching.Types

namespace Correlate.Matching

/-!
The bodies of a type are entered while the two runs agree in the members of the type.  After the bodies
they may differ in the calls for arrays of the methods that were entered, and these are dealt out method
by method.  Of a compiled method that is still open nothing is taken in either run, so that the next type
starts from what the runs share again.
-/

/-! ### After the bodies -/

namespace State

variable {setting : Setting} {done : List Source.File} {file : Source.File} {state : State}

/-- No two of the methods whose bodies were matched are matched with the same method. -/
theorem Sound.compiled_apart (sound : state.Sound setting done)
    (apart : (state.pairs.map Prod.fst).Nodup) : (state.pairs.map Prod.snd).Nodup := by
  rw [List.Nodup, List.pairwise_map] at apart ⊢
  refine apart.imp_of_mem fun {one two} isOne isTwo different same => different ?_
  obtain ⟨_, oneFound⟩ := Source.File.linkedMethod_iff.mp (sound.pairs one isOne)
  obtain ⟨_, twoFound⟩ := Source.File.linkedMethod_iff.mp (sound.pairs two isTwo)
  have handles := sound.accounted.once ((linkAt_last done state.file one.1.ref).trans oneFound)
    ((linkAt_last done state.file two.1.ref).trans twoFound) (congrArg Compiled.Handle.ref same)
  exact ref_injective (congrArg SourceHandle.element handles)

/-- Dealing out the calls for the arrays of one method. -/
theorem Sound.matchReflectiveArrays {pair : MethodPair} (sound : state.Sound setting done)
    (linked : state.file.linkedMethod? pair.1 = some pair.2) :
    let later := state.matchReflectiveArrays setting pair
    later.Sound setting done ∧ later.pairs = state.pairs :=
  ⟨((Pass.arrays linked).steps sound).sound sound,
    (matchReflectiveArrays_links sound.current.formed sound.pool pair).gains.pairs⟩

/-- Stand-ins are placed for the sites of the methods whose bodies were matched, as far as these are
open. -/
theorem forPairs_fills (sound : state.Sound setting done) (extended : file.Extends state.file) :
    Fills setting file (fun element => ∃ pair ∈ state.pairs, Site setting.pool pair.2 element) state
      (state.forPairs (standInForSites setting)) := by
  apply Fills.foldl state.pairs sound extended
  intro pair member current currentSound grown currentExtended
  exact standInForSites_fills currentSound currentExtended
    (grown.extended.linkedMethod (sound.pairs pair member))

/-- What holds at all times holds after the passes after the bodies. -/
theorem Sound.settleBodies (sound : state.Sound setting done) :
    (((state.forPairs (matchOuterThis setting)).forPairs
      (State.matchReflectiveArrays setting)).forPairs (standInForSites setting)).Sound setting done := by
  have outerSound := (outerThis_course sound).steps.sound sound
  have arraysSound := (arrays_course outerSound).steps.sound outerSound
  exact (forPairs_fills arraysSound (.refl _)).steps.sound arraysSound

end State

namespace Abreast

variable {setting : Setting} {i : Nat} {done lossyDone : List Source.File} {file : Source.File}
  {strict lossy : State}

/-- The calls for arrays are dealt out to one method after the other.  What both runs share becomes
less with every method. -/
theorem matchArrays (formed : file.WellFormed) {pairs : List MethodPair}
    (now : Abreast setting.pool file (· ∈ pairs.map Prod.fst) (· ∈ pairs.map Prod.snd) strict lossy)
    (strictSound : strict.Sound setting done) (lossySound : lossy.Sound (setting.varied i true) lossyDone)
    (entered : pairs ⊆ strict.pairs) (apart : (pairs.map Prod.fst).Nodup)
    (compiledApart : (pairs.map Prod.snd).Nodup) :
    Abreast setting.pool file noneOf noneOf
      (pairs.foldl (State.matchReflectiveArrays setting) strict)
      (pairs.foldl (State.matchReflectiveArrays (setting.varied i true)) lossy) := by
  induction pairs generalizing strict lossy with
  | nil => exact now.weaken (fun _ => False.elim) fun _ => False.elim
  | cons pair rest inductionHypothesis =>
      obtain ⟨isNew, restApart⟩ := List.nodup_cons.mp apart
      obtain ⟨compiledNew, compiledRestApart⟩ := List.nodup_cons.mp compiledApart
      have member := entered List.mem_cons_self
      obtain ⟨strictNext, strictPairs⟩ :=
        strictSound.matchReflectiveArrays (strictSound.pairs pair member)
      obtain ⟨lossyNext, _⟩ :=
        lossySound.matchReflectiveArrays (lossySound.pairs pair (now.pairs ▸ member))
      rw [List.foldl_cons, List.foldl_cons]
      refine inductionHypothesis ?next strictNext lossyNext ?entered restApart compiledRestApart
      case entered =>
        rw [strictPairs]
        exact fun other isRest => entered (List.mem_cons_of_mem _ isRest)
      case next =>
        refine now.matchReflectiveArrays formed strictSound.pool strictSound.current.formed
          lossySound.current.formed List.mem_cons_self List.mem_cons_self ?_ ?_
        · intro method isRest
          refine ⟨List.mem_cons_of_mem _ isRest, ?_⟩
          rintro rfl
          exact isNew isRest
        · intro other isRest
          refine ⟨List.mem_cons_of_mem _ isRest, ?_⟩
          rintro rfl
          exact compiledNew isRest

/-- The calls for arrays are dealt out to all methods whose bodies were matched. -/
theorem forPairs_arrays {here : Source.Handle .method → Prop} {fresh : Compiled.Handle .method → Prop}
    (now : Abreast setting.pool file here fresh strict lossy) (formed : file.WellFormed)
    (strictSound : strict.Sound setting done) (lossySound : lossy.Sound (setting.varied i true) lossyDone)
    (entered : ∀ pair ∈ strict.pairs, here pair.1 ∧ fresh pair.2)
    (apart : (strict.pairs.map Prod.fst).Nodup) :
    Abreast setting.pool file noneOf noneOf
      (strict.forPairs (State.matchReflectiveArrays setting))
      (lossy.forPairs (State.matchReflectiveArrays (setting.varied i true))) := by
  unfold State.forPairs
  rw [← now.pairs]
  refine matchArrays formed (now.weaken ?_ ?_) strictSound lossySound (List.Subset.refl _) apart
    (strictSound.compiled_apart apart)
  · intro method member
    obtain ⟨pair, isPair, rfl⟩ := List.mem_map.mp member
    exact (entered pair isPair).1
  · intro compiled member
    obtain ⟨pair, isPair, rfl⟩ := List.mem_map.mp member
    exact (entered pair isPair).2

/-- Stand-ins are placed in all methods whose bodies were matched. -/
theorem forPairs_sites (now : Abreast setting.pool file noneOf noneOf strict lossy)
    (strictSound : strict.Sound setting done)
    (lossySound : lossy.Sound (setting.varied i true) lossyDone) :
    Abreast setting.pool file noneOf noneOf (strict.forPairs (State.standInForSites setting))
      (lossy.forPairs (State.standInForSites (setting.varied i true))) := by
  have lossyFills := State.forPairs_fills lossySound now.lossyExtends
  rw [← now.pairs] at lossyFills
  exact now.fill strictSound lossySound (State.forPairs_fills strictSound now.strictExtends) lossyFills

end Abreast

namespace Together

variable {setting : Setting} {i : Nat} {done lossyDone : List Source.File} {file : Source.File}
  {entry : State} {waiting : Source.Handle .method → Prop} {strict lossy : State}

/-- What both runs do to the outer instances. -/
theorem matchOuterThis (now : Together setting i done lossyDone file entry waiting strict lossy)
    (entrySound : entry.Sound setting done) (formed : file.WellFormed) :
    Abreast setting.pool file (Unmatched file entry) (Untaken entry)
      (strict.forPairs (State.matchOuterThis setting))
      (lossy.forPairs (State.matchOuterThis (setting.varied i true))) := by
  unfold State.forPairs
  rw [← now.abreast.pairs]
  apply foldl_tied _ now.abreast
  intro pair member one two current
  have unmatched := now.entered pair member
  have isFresh := now.untaken entrySound unmatched (now.strictSound.pairs pair member)
  apply (Abreast.lockstep setting i file _ _).matchOuterThis unmatched.common ?inside current ?owned
  case inside =>
    exact fun access listed => .of_listed now.strictSound.pool .fieldAccess nofun isFresh
      (List.mem_map_of_mem listed)
  case owned =>
    intro access listed
    rw [current.strictMethods _ unmatched] at listed
    exact .of_listed formed .fieldAccess nofun (List.mem_map_of_mem listed)

/-- Once the bodies are matched, both runs settle what no single body settles. -/
theorem settleBodies (now : Together setting i done lossyDone file entry waiting strict lossy)
    (entrySound : entry.Sound setting done) (formed : file.WellFormed) :
    Abreast setting.pool file noneOf noneOf
      (((strict.forPairs (State.matchOuterThis setting)).forPairs
        (State.matchReflectiveArrays setting)).forPairs (State.standInForSites setting))
      (((lossy.forPairs (State.matchOuterThis (setting.varied i true))).forPairs
        (State.matchReflectiveArrays (setting.varied i true))).forPairs
        (State.standInForSites (setting.varied i true))) := by
  have strictOuter := State.outerThis_course now.strictSound
  have strictSound := strictOuter.steps.sound now.strictSound
  have lossySound := (State.outerThis_course now.lossySound).steps.sound now.lossySound
  have outer := now.matchOuterThis entrySound formed
  have arrays := outer.forPairs_arrays formed strictSound lossySound
    (fun pair member => by
      rw [strictOuter.pairs] at member
      have unmatched := now.entered pair member
      exact ⟨unmatched, now.untaken entrySound unmatched (now.strictSound.pairs pair member)⟩)
    (strictOuter.pairs ▸ now.apart)
  exact arrays.forPairs_sites ((State.arrays_course strictSound).steps.sound strictSound)
    ((State.arrays_course lossySound).steps.sound lossySound)

end Together

/-! ### Members -/

namespace Abreast

variable {setting : Setting} {i : Nat} {done lossyDone : List Source.File} {file : Source.File}
  {type : Source.Handle .type} {compiledType : Compiled.Handle .type} {strict lossy : State}

/-- The fields of two matched types, stand-ins included. -/
theorem matchFields (now : Abreast setting.pool file noneOf noneOf strict lossy)
    (formed : file.WellFormed) (strictSound : strict.Sound setting done)
    (lossySound : lossy.Sound (setting.varied i true) lossyDone)
    (strictLinked : strict.file.linkedType? type = some compiledType)
    (lossyLinked : lossy.file.linkedType? type = some compiledType)
    (strictType : strict.file.typeAt type = file.typeAt type)
    (lossyType : lossy.file.typeAt type = file.typeAt type)
    (unlinked : ∀ own ∈ (file.typeAt type).fields, strict.file.isLinked own.ref = false) :
    Abreast setting.pool file noneOf noneOf (strict.matchFields setting type compiledType)
      (lossy.matchFields (setting.varied i true) type compiledType) := by
  have known {own : Source.Handle .field} (listed : own ∈ (file.typeAt type).fields) :
      own.ref.index < file.count own.ref.kind := (formed.field_of_listed listed).1
  have byName : Abreast setting.pool file noneOf noneOf
      ((file.typeAt type).fields.foldl (State.matchField setting compiledType) strict)
      ((file.typeAt type).fields.foldl (State.matchField (setting.varied i true) compiledType)
        lossy) :=
    foldl_tied _ now fun field listed _ _ current =>
      (lockstep setting i file noneOf noneOf).matchField current (.of_kind (known listed) nofun nofun)
        fun _ _ => .of_kind nofun nofun
  have strictCourse := @State.matchFieldsByName_course setting done strict type compiledType
    strictSound strictLinked (strictType ▸ unlinked)
  have lossyCourse := @State.matchFieldsByName_course (setting.varied i true) lossyDone lossy type
    compiledType lossySound lossyLinked (lossyType ▸ fun own listed =>
      (now.linked (known listed) nofun).symm.trans (unlinked own listed))
  have strictNamed := strictCourse.steps.sound_grows strictSound
  have lossyNamed := lossyCourse.steps.sound_grows lossySound
  unfold State.matchFields
  rw [strictType] at strictNamed ⊢
  rw [lossyType] at lossyNamed ⊢
  exact byName.fill strictNamed.1 lossyNamed.1
    (State.standInForFields_fills strictNamed.1 byName.strictExtends
      (strictNamed.2.extended.linkedType strictLinked))
    (State.standInForFields_fills lossyNamed.1 byName.lossyExtends
      (lossyNamed.2.extended.linkedType lossyLinked))

/-- Nothing in the bodies of methods without a link is matched yet, and nothing of compiled methods
that are open. -/
theorem enter (now : Abreast setting.pool file noneOf noneOf strict lossy)
    (formed : file.WellFormed)
    (strictSound : strict.Sound setting done) (lossySound : lossy.Sound (setting.varied i true) lossyDone)
    (strictPristine : strict.Pristine file) (lossyPristine : lossy.Pristine file) :
    Abreast setting.pool file (Unmatched file strict) (Untaken strict) strict lossy := by
  have lossyUnlinked {method : Source.Handle .method} (unmatched : Unmatched file strict method) :
      lossy.file.isLinked method.ref = false := by
    have known : method.ref.index < file.count method.ref.kind := unmatched.1
    exact (now.linked known nofun).symm.trans unmatched.2
  refine { now with alike := ?alike, strictMethods := ?_, lossyMethods := ?_, ahead := ?ahead }
  case alike =>
    intro element shared
    by_cases creates : CreatesArray setting.pool element
    · obtain ⟨compiled, owned, isFresh⟩ := shared.2 creates
      have lossyFresh : lossy.isConsumed compiled.ref = false :=
        (now.alike compiled.ref (.of_kind nofun nofun)).symm.trans isFresh
      rw [strictSound.parts_open isFresh owned, lossySound.parts_open lossyFresh owned]
    · exact now.alike element ⟨shared.1, fun isCreator => absurd isCreator creates⟩
  · exact fun method unmatched => strictPristine.methods method unmatched.2
  · exact fun method unmatched => lossyPristine.methods method (lossyUnlinked unmatched)
  case ahead =>
    intro method unmatched own listed
    obtain ⟨known, owned⟩ := formed.owner_of_listed .allocation (List.mem_map_of_mem listed)
    have strictOpen := strictSound.untouched_of_unlinked unmatched.2 own.ref
      ((now.strictExtends.owningMethod known).trans owned)
    have lossyOpen := lossySound.untouched_of_unlinked (lossyUnlinked unmatched) own.ref
      ((now.lossyExtends.owningMethod known).trans owned)
    exact ⟨fun link found => absurd found (Source.File.not_link_of_unlinked strictOpen),
      fun link found => absurd found (Source.File.not_link_of_unlinked lossyOpen)⟩

end Abreast

/-! ### Types -/

/-- A strict and a lossy run have come to the same place among the types of a file.  In both, what holds
at all times holds, and only what is linked got stand-ins. -/
structure Beside (setting : Setting) (i : Nat) (done lossyDone : List Source.File)
    (file : Source.File) (strict lossy : State) : Prop where
  abreast : Abreast setting.pool file noneOf noneOf strict lossy
  strictSound : strict.Sound setting done
  lossySound : lossy.Sound (setting.varied i true) lossyDone
  strictPristine : strict.Pristine file
  lossyPristine : lossy.Pristine file

namespace Beside

variable {setting : Setting} {i : Nat} {done lossyDone : List Source.File} {file : Source.File}
  {type : Source.Handle .type} {compiledType : Compiled.Handle .type}
  {strict lossy strictLater lossyLater : State}

theorem notice (now : Beside setting i done lossyDone file strict lossy)
    (line otherLine : Option Nat) (finding otherFinding : Finding) :
    Beside setting i done lossyDone file (strict.notice line finding)
      (lossy.notice otherLine otherFinding) where
  abreast := now.abreast.notice line otherLine finding otherFinding
  strictSound := now.strictSound.of_same rfl rfl now.strictSound.pairs
  lossySound := now.lossySound.of_same rfl rfl now.lossySound.pairs
  strictPristine := ⟨now.strictPristine.types, now.strictPristine.methods⟩
  lossyPristine := ⟨now.lossyPristine.types, now.lossyPristine.methods⟩

/-- What holds at all times holds after steps of both runs. -/
theorem advance (now : Beside setting i done lossyDone file strict lossy)
    (abreast : Abreast setting.pool file noneOf noneOf strictLater lossyLater)
    (strictSteps : Steps setting anyElement strict strictLater)
    (lossySteps : Steps (setting.varied i true) anyElement lossy lossyLater) :
    Beside setting i done lossyDone file strictLater lossyLater where
  abreast := abreast
  strictSound := strictSteps.sound now.strictSound
  lossySound := lossySteps.sound now.lossySound
  strictPristine := strictSteps.pristine now.strictPristine
  lossyPristine := lossySteps.pristine now.lossyPristine

theorem lossyUnlinked (now : Beside setting i done lossyDone file strict lossy) {element : Source.Ref}
    (known : element.index < file.count element.kind) (noAllocation : element.kind ≠ .allocation)
    (unlinked : strict.file.isLinked element = false) : lossy.file.isLinked element = false :=
  (now.abreast.linked known noAllocation).symm.trans unlinked

variable (formed : file.WellFormed)

include formed

/-- The methods of two matched types.  Then both runs enter the bodies. -/
theorem matchMethods (now : Beside setting i done lossyDone file strict lossy)
    (strictLinked : strict.file.linkedType? type = some compiledType)
    (lossyLinked : lossy.file.linkedType? type = some compiledType)
    (unlinked : ∀ own ∈ (file.typeAt type).methods, strict.file.isLinked own.ref = false) :
    Together setting i done lossyDone file strict (· ∈ (file.typeAt type).methods)
      { strict.matchMethods setting type compiledType with pairs := [] }
      { lossy.matchMethods (setting.varied i true) type compiledType with pairs := [] } := by
  have unmatched {own : Source.Handle .method} (listed : own ∈ (file.typeAt type).methods) :
      Unmatched file strict own := ⟨(formed.method_of_listed listed).1, unlinked own listed⟩
  obtain ⟨strictCourse, strictClear, _⟩ := @State.matchMethods_course setting done strict type
    compiledType now.strictSound strictLinked (now.abreast.strictExtends.typeMethods type ▸ unlinked)
  obtain ⟨lossyCourse, lossyClear, _⟩ := @State.matchMethods_course (setting.varied i true) lossyDone
    lossy type compiledType now.lossySound lossyLinked (by
      rw [now.abreast.lossyExtends.typeMethods]
      exact fun own listed => now.lossyUnlinked (unmatched listed).1 nofun (unlinked own listed))
  have strictNext := strictCourse.steps.sound_grows now.strictSound
  have lossyNext := lossyCourse.steps.sound_grows now.lossySound
  constructor
  case abreast =>
    have entered := now.abreast.enter formed now.strictSound now.lossySound now.strictPristine
      now.lossyPristine
    refine Abreast.forgetPairs ((Abreast.lockstep setting i file _ _).matchMethods entered ?_ ?_)
    · rw [now.abreast.strictExtends.typeMethods]
      exact fun method listed => (unmatched listed).common
    · exact fun _ _ => .of_kind nofun nofun
  case strictSound => exact strictNext.1.of_same rfl rfl nofun
  case lossySound => exact lossyNext.1.of_same rfl rfl nofun
  case grown => exact { strictNext.2 with }
  case entered => exact nofun
  case apart => exact List.nodup_nil
  case waits => exact fun _ _ => List.not_mem_nil
  case clear =>
    intro method isUnmatched _
    exact ⟨strictClear method isUnmatched.2,
      lossyClear method (now.lossyUnlinked isUnmatched.1 nofun isUnmatched.2)⟩

/-- The members of two matched types, then the bodies, then the rest. -/
theorem matchMembers (isStrict : setting.options.lossy = false)
    (now : Beside setting i done lossyDone file strict lossy)
    (strictLinked : strict.file.linkedType? type = some compiledType)
    (lossyLinked : lossy.file.linkedType? type = some compiledType)
    (strictType : strict.file.typeAt type = file.typeAt type)
    (lossyType : lossy.file.typeAt type = file.typeAt type)
    (fieldsUnlinked : ∀ own ∈ (file.typeAt type).fields, strict.file.isLinked own.ref = false)
    (methodsUnlinked : ∀ own ∈ (file.typeAt type).methods, strict.file.isLinked own.ref = false) :
    Beside setting i done lossyDone file (strict.matchMembers setting type compiledType)
      (lossy.matchMembers (setting.varied i true) type compiledType) := by
  have fieldsUnlinkedToo : ∀ own ∈ (file.typeAt type).fields, lossy.file.isLinked own.ref = false :=
    fun own listed =>
      now.lossyUnlinked (formed.field_of_listed listed).1 nofun (fieldsUnlinked own listed)
  have methodsUnlinkedToo : ∀ own ∈ (file.typeAt type).methods,
      lossy.file.isLinked own.ref = false :=
    fun own listed =>
      now.lossyUnlinked (formed.method_of_listed listed).1 nofun (methodsUnlinked own listed)
  obtain ⟨strictJourney, _⟩ := @State.matchMembers_journey setting done strict strict type compiledType
    now.strictSound .refl strictLinked (strictType ▸ fieldsUnlinked) (strictType ▸ methodsUnlinked)
  obtain ⟨lossyJourney, _⟩ := @State.matchMembers_journey (setting.varied i true) lossyDone lossy lossy
    type compiledType now.lossySound .refl lossyLinked (lossyType ▸ fieldsUnlinkedToo)
    (lossyType ▸ methodsUnlinkedToo)
  refine now.advance ?_ strictJourney.steps.any lossyJourney.steps.any
  -- Fields
  obtain ⟨strictFields, _⟩ := @State.matchFields_course setting done strict type compiledType
    now.strictSound strictLinked (strictType ▸ fieldsUnlinked)
  obtain ⟨lossyFields, _⟩ := @State.matchFields_course (setting.varied i true) lossyDone lossy type
    compiledType now.lossySound lossyLinked (lossyType ▸ fieldsUnlinkedToo)
  have fielded := now.advance
    (now.abreast.matchFields formed now.strictSound now.lossySound strictLinked lossyLinked strictType
      lossyType fieldsUnlinked) strictFields.steps.any lossyFields.steps.any
  have strictGrown := strictFields.steps.grows now.strictSound
  have lossyGrown := lossyFields.steps.grows now.lossySound
  have unlinked : ∀ own ∈ (file.typeAt type).methods,
      (strict.matchFields setting type compiledType).file.isLinked own.ref = false :=
    fun own listed => strictFields.steps.unlinked (methodsUnlinked own listed) nofun
  -- Methods and bodies
  have entered := fielded.matchMethods formed (strictGrown.extended.linkedType strictLinked)
    (lossyGrown.extended.linkedType lossyLinked) unlinked
  have bodies := Together.matchMethodBodies fielded.strictSound formed isStrict
    (formed.methods_nodup type)
    (fun own listed => ⟨(formed.method_of_listed listed).1, unlinked own listed⟩)
    (fun own listed => formed.parent_of_listed listed) entered
  -- What is left
  have details := bodies.settleBodies fielded.strictSound formed
  have usages := details.fill bodies.strictSound.settleBodies bodies.lossySound.settleBodies
    (State.resolveUsages_fills type compiledType) (State.resolveUsages_fills type compiledType)
  unfold State.matchMembers State.matchBodies
  dsimp only
  have strictMethods := entered.abreast.strictExtends.typeMethods type
  have lossyMethods := entered.abreast.lossyExtends.typeMethods type
  dsimp only at strictMethods lossyMethods
  rw [strictMethods, lossyMethods]
  exact usages

/-- The turn of a type. -/
theorem matchType (isStrict : setting.options.lossy = false)
    (now : Beside setting i done lossyDone file strict lossy) (known : type.index < file.types.size) :
    Beside setting i done lossyDone file (strict.matchType setting type)
      (lossy.matchType (setting.varied i true) type) := by
  have typeKnown : type.ref.index < file.count type.ref.kind := known
  unfold State.matchType
  rw [now.abreast.strictExtends.binaryName, now.abreast.lossyExtends.binaryName]
  cases named : setting.pool.typeNamed? (file.typeAt type).binaryName with
  | none => exact now
  | some compiledType =>
      have shared : Shared setting.pool noneOf compiledType.ref := .of_kind nofun nofun
      have same := now.abreast.accepts typeKnown nofun shared
      dsimp only
      rw [← same]
      cases accepted : strict.accepts type.ref compiledType.ref with
      | false =>
          simp only [Bool.false_eq_true, if_false]
          rw [State.record_of_rejected accepted,
            State.record_of_rejected (same.symm.trans accepted)]
          exact now.notice _ _ _ _
      | true =>
          have lossyAccepted := same.symm.trans accepted
          obtain ⟨_, unlinked⟩ := State.accepts_iff.mp accepted
          obtain ⟨_, lossyUnlinked⟩ := State.accepts_iff.mp lossyAccepted
          obtain ⟨fields, methods⟩ := now.strictSound.members_unlinked unlinked
          have strictType := now.strictPristine.types type unlinked
          have lossyType := now.lossyPristine.types type lossyUnlinked
          rw [strictType] at fields methods
          have recorded := now.advance (now.abreast.record (i := i) typeKnown nofun shared)
            (.single (.accept (.type (now.abreast.strictExtends.typeCount ▸ known)
              (by rw [strictType]; exact named)) trivial accepted))
            (.single (.accept (.type (now.abreast.lossyExtends.typeCount ▸ known)
              (by rw [lossyType]; exact named)) trivial lossyAccepted))
          have strictLink := @State.link_record setting _ _ _ accepted type.ref
          have lossyLink := @State.link_record (setting.varied i true) _ _ _ lossyAccepted type.ref
          simp only [if_true]
          refine recorded.matchMembers formed isStrict
            (Source.File.linkedType_iff.mpr ⟨_, strictLink.trans (if_pos rfl)⟩)
            (Source.File.linkedType_iff.mpr ⟨_, lossyLink.trans (if_pos rfl)⟩) ?_ ?_ ?_ ?_
          · exact ((State.record_relinked _ _ _ _).typeAt type).trans strictType
          · exact ((State.record_relinked _ _ _ _).typeAt type).trans lossyType
          · exact fun own listed => State.unlinked_record nofun (fields own listed)
          · exact fun own listed => State.unlinked_record nofun (methods own listed)

/-- All types of a file. -/
theorem matchTypes (isStrict : setting.options.lossy = false)
    (now : Beside setting i done lossyDone file strict lossy) :
    Beside setting i done lossyDone file (strict.matchTypes setting)
      (lossy.matchTypes (setting.varied i true)) := by
  unfold State.matchTypes Source.File.typeHandles
  rw [now.abreast.strictExtends.typeCount, now.abreast.lossyExtends.typeCount]
  apply foldl_tied _ now
  intro type member one two current
  obtain ⟨place, bound, rfl⟩ := List.mem_map.mp member
  exact current.matchType formed isStrict (List.mem_range.mp bound)

end Beside

end Correlate.Matching
