/-
Module: Correlate.Proofs.Constructors
Purpose: Which constructors of inner types are matched with their compiled forms.
Main exports: SignatureSafe, matchMethods_constructors, matchMethods_confuses
-/
import Correlate.Proofs.Overloads

namespace Correlate.Matching

/-!
A constructor of an inner type takes the captured instances before its own parameters when it is
compiled.  Matching by name leaves such constructors alone, and the last stage compares them with the
captured instances in front.  The stage between these compares signatures as they are written: it may
give a constructor the compiled form of another one, whose captured instances look like its parameters.
-/

/-! ### Parameters after captured instances -/

/-- The first parameters have the simple names of the captured types. -/
theorem all_zip_innermost_iff {captured params : List String}
    (sized : captured.length ≤ params.length) :
    (captured.zip params).all (fun (outer, param) =>
        TypeName.innermost outer == TypeName.innermost param) = true ↔
      (params.take captured.length).map TypeName.innermost = captured.map TypeName.innermost := by
  induction captured generalizing params with
  | nil => simp
  | cons outer rest inductionHypothesis =>
      cases params with
      | nil => cases sized
      | cons param params =>
          rw [List.zip_cons_cons, List.all_cons, Bool.and_eq_true, beq_iff_eq, List.length_cons,
            List.take_succ_cons, List.map_cons, List.map_cons, List.cons.injEq,
            inductionHypothesis (Nat.le_of_succ_le_succ sized)]
          exact and_congr_left fun _ => eq_comm

theorem TakesAfter.length_eq {captured : List String} {spellings : List (Option String)}
    {params : List String} (takes : TakesAfter captured spellings params) :
    params.length = captured.length + spellings.length := by
  obtain ⟨front, spells⟩ := takes
  have frontLength := congrArg List.length front
  have restLength := spells.length_eq
  simp only [List.length_map, List.length_take, List.length_drop] at frontLength restLength
  omega

theorem TakesAfter.constructorAgrees {captured : List String} {spellings : List (Option String)}
    {params : List String} (takes : TakesAfter captured spellings params) :
    constructorAgrees captured spellings params = true := by
  have sized := takes.length_eq
  have shorter : captured.length ≤ params.length := by omega
  simp only [Matching.constructorAgrees, Bool.and_eq_true, decide_eq_true_eq]
  exact ⟨⟨sized, (all_zip_innermost_iff shorter).mpr takes.1⟩, paramsAgree_of_spells takes.2⟩

/-- Parameters that agree with the same constructor have the same simple names. -/
theorem TakesAfter.innermost_unique {captured : List String} {spellings : List (Option String)}
    {params others : List String} (takes : TakesAfter captured spellings params)
    (agrees : Matching.constructorAgrees captured spellings others = true) :
    others.map TypeName.innermost = params.map TypeName.innermost := by
  simp only [Matching.constructorAgrees, Bool.and_eq_true, decide_eq_true_eq] at agrees
  obtain ⟨⟨sized, front⟩, rest⟩ := agrees
  have shorter : captured.length ≤ others.length := by omega
  have restLength : (others.drop captured.length).length = spellings.length := by
    rw [List.length_drop]
    omega
  calc others.map TypeName.innermost
      = (others.take captured.length).map TypeName.innermost ++
          (others.drop captured.length).map TypeName.innermost := by
        rw [← List.map_append, List.take_append_drop]
    _ = (params.take captured.length).map TypeName.innermost ++
          (params.drop captured.length).map TypeName.innermost := by
        rw [(all_zip_innermost_iff shorter).mp front, takes.1,
          Matching.innermost_unique takes.2 restLength rest]
    _ = params.map TypeName.innermost := by rw [← List.map_append, List.take_append_drop]

/-! ### The last stage -/

section Constructors

variable {setting : Setting} {state : State} {file : Source.File} {type : Source.Handle .type}
  {compiledType : Compiled.Handle .type}
  {image : Source.Handle .method → Compiled.Handle .method}
  {awaited : Set (Source.Handle .method)}

/-- The constructors of a type correspond to those of a compiled inner type. -/
abbrev FaithfulConstructors (pool : Compiled.Pool) (file : Source.File) (type : Source.Handle .type)
    (compiledType : Compiled.Handle .type)
    (image : Source.Handle .method → Compiled.Handle .method) : Prop :=
  Faithful pool file type compiledType ReservedName.constructor
    (pool.typeAt compiledType).outerTypes image

/-- A constructor agrees with its compiled form and with no other one. -/
theorem FaithfulConstructors.agrees_iff
    (faithful : FaithfulConstructors setting.pool file type compiledType image)
    {own : Source.Handle .method} (member : own ∈ overloads file type ReservedName.constructor)
    {other : Compiled.Handle .method}
    (isOther : other ∈ compiledOverloads setting.pool compiledType ReservedName.constructor) :
    constructorAgrees (setting.pool.typeAt compiledType).outerTypes (file.paramTypes own)
      (setting.pool.methodAt other).signature.params = true ↔ other = image own := by
  have takes := faithful.takes own member
  constructor
  · intro agrees
    exact faithful.apart isOther (faithful.paired.mapsTo member) (takes.innermost_unique agrees)
  · rintro rfl
    exact takes.constructorAgrees

/-- Compared with the captured instances in front, a constructor takes its compiled form if that is
open, and nothing else. -/
theorem FaithfulConstructors.counterpart_eq
    (faithful : FaithfulConstructors setting.pool file type compiledType image)
    (built : setting.pool.IsBuilt) (inner : (setting.pool.typeAt compiledType).outerTypes ≠ [])
    (same : file.Relinked state.file) {own : Source.Handle .method}
    (member : own ∈ overloads file type ReservedName.constructor) :
    state.innerConstructorCounterpart? setting compiledType
        ((compiledMethodsByName setting.pool compiledType).members ReservedName.constructor) own =
      if state.isConsumed (image own).ref then none else some (image own) := by
  unfold State.innerConstructorCounterpart?
  dsimp only
  rw [if_neg (by simpa using inner), same.paramTypes]
  generalize isAgreeing : (state.openOf _).filter _ = agreeing
  have mem_agreeing (other : Compiled.Handle .method) :
      other ∈ agreeing ↔ state.isConsumed (image own).ref = false ∧ other = image own := by
    rw [← isAgreeing, List.mem_filter, State.mem_openOf, mem_members_compiledMethodsByName]
    constructor
    · rintro ⟨⟨isOther, opened⟩, agrees⟩
      obtain rfl := (faithful.agrees_iff member isOther).mp agrees
      exact ⟨opened, rfl⟩
    · rintro ⟨opened, rfl⟩
      have isOther := faithful.paired.mapsTo member
      exact ⟨⟨isOther, opened⟩, (faithful.agrees_iff member isOther).mpr rfl⟩
  cases opened : state.isConsumed (image own).ref with
  | true =>
      rw [List.eq_nil_iff_forall_not_mem.mpr fun other isMember =>
        absurd (opened.symm.trans ((mem_agreeing other).mp isMember).1) nofun]
      rfl
  | false =>
      have distinct : agreeing.Nodup := by
        rw [← isAgreeing]
        exact ((nodup_members_compiledMethodsByName built).filter _).filter _
      rw [eq_singleton_of_nodup distinct fun other => by rw [mem_agreeing, and_iff_right opened]]
      rfl

/-- The last stage matches the constructors that are awaited. -/
theorem matchInnerConstructors_serves
    (faithful : FaithfulConstructors setting.pool file type compiledType image)
    (built : setting.pool.IsBuilt) (inner : (setting.pool.typeAt compiledType).outerTypes ≠ [])
    (same : file.Relinked state.file)
    (within : awaited ⊆ overloads file type ReservedName.constructor)
    (pending : Pending image awaited state) :
    let later := state.matchInnerConstructors setting compiledType
      ((methodsByName file type).members ReservedName.constructor)
    ∀ own, Served image awaited own later := by
  obtain ⟨_, ends⟩ := @foldl_serves setting image awaited state _
    (State.matchInnerConstructor setting compiledType
      ((compiledMethodsByName setting.pool compiledType).members ReservedName.constructor))
    (Served image awaited) ((methodsByName file type).members ReservedName.constructor) pending
    (fun own isMember current before now => by
      have member := mem_members_methodsByName.mp isMember
      have counterpart := @FaithfulConstructors.counterpart_eq setting current _ _ _ _ faithful built
        inner (same.trans before.relinked) own member
      unfold State.matchInnerConstructor
      split
      · next linked => exact ⟨.refl current, now.served linked⟩
      · refine recordSome_serves faithful within now member ?chosen ?faithless
        case chosen =>
          intro opened
          rw [counterpart, opened]
          rfl
        case faithless =>
          intro _ _ other found
          rw [counterpart] at found
          split at found
          · cases found
          · exact (Option.some.inj found).symm)
    fun own current later grown served => served.mono grown
  exact fun own awaits => ends own (mem_members_methodsByName.mpr (within awaits)) awaits

/-! ### All stages -/

/-- The signature of the constructor denotes at most its compiled form, and no other signature in the
type denotes that. -/
def SignatureSafe (pool : Compiled.Pool) (file : Source.File) (type : Source.Handle .type)
    (compiledType : Compiled.Handle .type)
    (image : Source.Handle .method → Compiled.Handle .method) (own : Source.Handle .method) : Prop :=
  (∀ other ∈ (pool.typeAt compiledType).methods,
    (pool.methodAt other).id ∈ file.signatureIds type own → other = image own) ∧
  ∀ method ∈ (file.typeAt type).methods, (file.methodAt method).kind ≠ .instanceInitializer →
    (pool.methodAt (image own)).id ∈ file.signatureIds type method → method = own

instance (pool : Compiled.Pool) (file : Source.File) (type : Source.Handle .type)
    (compiledType : Compiled.Handle .type)
    (image : Source.Handle .method → Compiled.Handle .method) (own : Source.Handle .method) :
    Decidable (SignatureSafe pool file type compiledType image own) :=
  inferInstanceAs (Decidable (_ ∧ _))

/-- If the constructors of an inner type correspond to its compiled constructors and these are open,
every one of them that is not linked yet is linked to its compiled form, unless a signature leads
astray. -/
theorem matchMethods_constructors (built : setting.pool.IsBuilt)
    (opened : ∀ other ∈ (setting.pool.typeAt compiledType).methods,
      state.isConsumed other.ref = false)
    (inner : (setting.pool.typeAt compiledType).outerTypes ≠ [])
    (faithful : FaithfulConstructors setting.pool state.file type compiledType image) :
    ∀ own ∈ overloads state.file type ReservedName.constructor,
      state.file.isLinked own.ref = false →
      SignatureSafe setting.pool state.file type compiledType image own →
        (state.matchMethods setting type compiledType).file.linkedMethod? own =
          some (image own) := by
  intro own member unlinked safe
  have within : ({own} : Set (Source.Handle .method)) ⊆
      unlinkedOverloads state.file type ReservedName.constructor :=
    Set.singleton_subset_iff.mpr ⟨member, unlinked⟩
  have isConstructor : ({own} : Set (Source.Handle .method)) ⊆
      overloads state.file type ReservedName.constructor :=
    Set.singleton_subset_iff.mpr member
  obtain ⟨byName, _⟩ := matchByName_serves built faithful isConstructor
    (faithful.pending within opened) fun plain => absurd (plain rfl) inner
  let named := state.matchByName setting type compiledType
  let shared := sharedNames setting.pool state.file type compiledType
  have bySignature : Serves setting image {own} named
      (named.matchBySignatures setting type compiledType shared) := by
    refine .of_tries State.matchBySignatures_tries ?_
    rintro _ _ ⟨⟨_, methods⟩, isShared, a, isMember, c, compiledListed, rfl, rfl, denoted⟩ _ rfl
    rw [byName.tries.relinked.signatureIds] at denoted
    obtain ⟨listed, noBlock, _⟩ :=
      (State.mem_methodsByName (List.mem_filter.mp isShared).1).mp isMember
    constructor
    · intro same
      obtain rfl := ref_injective same
      rw [safe.1 c compiledListed denoted]
    · intro same
      obtain rfl := compiledRef_injective same
      rw [safe.2 a listed noBlock denoted]
  have before := byName.trans bySignature
  have served := matchInnerConstructors_serves faithful built inner before.tries.relinked
    isConstructor (before.pending (faithful.pending within opened)) own
  rw [State.matchMethods_eq]
  exact served.mono (@State.noticeOpenMethods_tries setting _ type compiledType anyMatch
    shared).extended (Set.mem_singleton own)

end Constructors

/-! ### Two constructors of an inner type -/

/-- An inner type with a constructor of the given parameters, and one that takes the outer instance
twice. -/
def innerPlan (params : List String) : Plan :=
  let constructor (params : List String) : Compiled.Signature :=
    { name := ReservedName.constructor, params, returnType := "void" }
  let steps : List Compiled.Step :=
    [.type "p.Outer", .type "p.Outer$Inner", .field ⟨1⟩ "this$0" "p.Outer" {},
      .method ⟨1⟩ (constructor params) {}, .method ⟨1⟩ (constructor ["p.Outer", "p.Outer"]) {}]
  { pool := (({} : Compiled.Builder).performAll steps).1.finish.pool }

/-- A constructor whose parameter has the type around it, and another one. -/
def innerFile (params : List Source.Step) : Source.File :=
  ({ path := "p/Outer.src.json", package := "p" } : Source.File).performAll
    ([.type "Outer" none none, .type "Inner" (some ⟨0⟩) none, .constructor ⟨1⟩ none,
      .param ⟨2⟩ "o" (some "Outer") none, .constructor ⟨1⟩ none] ++ params)

/-- The inner types are matched. -/
def innerState (plan : Plan) (file : Source.File) : State :=
  ({ file } : State).record (plan.setting 0) ⟨.type, 1⟩ ⟨.type, 1⟩

/-- Which compiled constructor is that of which. -/
def innerImage (own : Source.Handle .method) : Compiled.Handle .method :=
  if own.index = 2 then ⟨1⟩ else ⟨0⟩

theorem innerPlan_isBuilt (params : List String) : (innerPlan params).pool.IsBuilt := by
  refine ⟨_, Compiled.Builder.Reachable.empty.performAll ?admitted, rfl⟩
  exact ⟨trivial, trivial, Nat.one_lt_two, Nat.one_lt_two, Nat.one_lt_two, trivial⟩

/-- The file after the constructors `Inner(Outer)` and `Inner(int)` were matched. -/
def innerResult : Source.File :=
  let plan := innerPlan ["p.Outer", "int"]
  ((innerState plan (innerFile [.param ⟨3⟩ "i" (some "int") none])).matchMethods
    (plan.setting 0) ⟨1⟩ ⟨1⟩).file

theorem matchMethods_constructors_sample :
    innerResult.linkedMethod? ⟨2⟩ = some ⟨1⟩ ∧ innerResult.linkedMethod? ⟨3⟩ = some ⟨0⟩ := by
  let plan := innerPlan ["p.Outer", "int"]
  let state := innerState plan (innerFile [.param ⟨3⟩ "i" (some "int") none])
  have listed : ∀ i ∈ [2, 3], (⟨i⟩ : Source.Handle .method) ∈
      (methodsByName state.file ⟨1⟩).members ReservedName.constructor := by
    decide +kernel
  have matched := @matchMethods_constructors (plan.setting 0) state ⟨1⟩ ⟨1⟩ innerImage
    (innerPlan_isBuilt _) (by decide +kernel) (by decide +kernel) (by decide +kernel)
  exact ⟨matched ⟨2⟩ (mem_members_methodsByName.mp (listed 2 (by decide))) (by decide +kernel)
      (by decide +kernel),
    matched ⟨3⟩ (mem_members_methodsByName.mp (listed 3 (by decide))) (by decide +kernel)
      (by decide +kernel)⟩

/-- Of the constructors `Inner(Outer)` and `Inner()` the first takes the compiled form of the second,
whose captured instance looks like its parameter, and the second gets none. -/
theorem matchMethods_confuses :
    let plan := innerPlan ["p.Outer"]
    let state := innerState plan (innerFile [])
    let later := state.matchMethods (plan.setting 0) ⟨1⟩ ⟨1⟩
    plan.pool.IsBuilt ∧
      (∀ other ∈ (plan.pool.typeAt ⟨1⟩).methods, state.isConsumed other.ref = false) ∧
      (plan.pool.typeAt ⟨1⟩).outerTypes = ["p.Outer"] ∧
      FaithfulConstructors (plan.setting 0).pool state.file ⟨1⟩ ⟨1⟩ innerImage ∧
      (methodsByName state.file ⟨1⟩).members ReservedName.constructor = [⟨2⟩, ⟨3⟩] ∧
      state.file.isLinked ⟨.method, 2⟩ = false ∧ state.file.isLinked ⟨.method, 3⟩ = false ∧
      later.file.linkedMethod? ⟨2⟩ = some (innerImage ⟨3⟩) ∧ later.file.linkedMethod? ⟨3⟩ = none :=
  ⟨innerPlan_isBuilt _, by decide +kernel⟩

end Correlate.Matching
