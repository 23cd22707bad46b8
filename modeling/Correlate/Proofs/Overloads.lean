/-
Module: Correlate.Proofs.Overloads
Purpose: Overloads that correspond to compiled ones one by one are matched one by one.
Main exports: overloads, compiledOverloads, Faithful, matchMethods_overloads
-/
import Mathlib.Data.Set.Function
import Correlate.Matching.Run
import Correlate.Proofs.Compiled.Contents
import Correlate.Proofs.Matching.Tries

namespace Correlate.Matching

/-!
Overloads are matched greedily: each takes the only open candidate of its arity, or the only one of
these whose parameter types agree.  A compiled method that has its counterpart in the source is never
taken by another one, so the candidates for a method always contain the right one, and parameter types
that differ in their simple names leave no other.
-/

/-- The methods of a type with a name, instance initializer blocks left out. -/
def overloads (file : Source.File) (type : Source.Handle .type) (name : String) :
    Set (Source.Handle .method) :=
  {own | own ∈ (file.typeAt type).methods ∧ (file.methodAt own).kind ≠ .instanceInitializer ∧
    (file.methodAt own).name = name}

/-- The compiled methods of a type with a name, bridges left out. -/
def compiledOverloads (pool : Compiled.Pool) (type : Compiled.Handle .type) (name : String) :
    Set (Compiled.Handle .method) :=
  {other | other ∈ (pool.typeAt type).methods ∧ (pool.methodAt other).modifiers.isBridge = false ∧
    (pool.methodAt other).name = name}

/-- The simple names of the parameter types of a compiled method. -/
def simpleParams (pool : Compiled.Pool) (method : Compiled.Handle .method) : List String :=
  (pool.methodAt method).signature.params.map TypeName.innermost

/-- The parameter has a declared type, and that has the simple name of the compiled type. -/
def Spells (spelling : Option String) (type : String) : Prop :=
  ∃ name ∈ spelling, TypeName.sameInnermost name type = true

instance : DecidableRel Spells := fun spelling type =>
  inferInstanceAs (Decidable (∃ name ∈ spelling, TypeName.sameInnermost name type = true))

/-- The parameters of a compiled method are captured instances and then the declared parameters. -/
def TakesAfter (captured : List String) (spellings : List (Option String)) (params : List String) :
    Prop :=
  (params.take captured.length).map TypeName.innermost = captured.map TypeName.innermost ∧
    List.Forall₂ Spells spellings (params.drop captured.length)

instance (captured : List String) (spellings : List (Option String)) (params : List String) :
    Decidable (TakesAfter captured spellings params) :=
  inferInstanceAs (Decidable (_ ∧ _))

/-- The source methods of a name correspond to the compiled ones one by one.  Each one's parameters are
those of its counterpart, but for captured instances in front, and the simple names of their types tell
the compiled methods apart. -/
structure Faithful (pool : Compiled.Pool) (file : Source.File) (type : Source.Handle .type)
    (compiledType : Compiled.Handle .type) (name : String) (captured : List String)
    (image : Source.Handle .method → Compiled.Handle .method) : Prop where
  paired : Set.BijOn image (overloads file type name) (compiledOverloads pool compiledType name)
  takes : ∀ own ∈ overloads file type name,
    TakesAfter captured (file.paramTypes own) (pool.methodAt (image own)).signature.params
  apart : Set.InjOn (simpleParams pool) (compiledOverloads pool compiledType name)

/-! ### Parameter types -/

theorem paramsAgree_of_spells {spellings : List (Option String)} {types : List String}
    (spells : List.Forall₂ Spells spellings types) : paramsAgree spellings types = true := by
  induction spells with
  | nil => rfl
  | cons first _ inductionHypothesis =>
      obtain ⟨name, rfl, same⟩ := first
      simp only [paramsAgree, List.zip_cons_cons, List.all_cons, Option.all_some, same,
        Bool.true_and]
      exact inductionHypothesis

/-- Types that agree with the same declared types have the same simple names. -/
theorem innermost_unique {spellings : List (Option String)} {types others : List String}
    (spells : List.Forall₂ Spells spellings types) (sized : others.length = spellings.length)
    (agrees : paramsAgree spellings others = true) :
    others.map TypeName.innermost = types.map TypeName.innermost := by
  induction spells generalizing others with
  | nil => rw [List.length_eq_zero_iff.mp sized]
  | cons first _ inductionHypothesis =>
      obtain ⟨name, rfl, same⟩ := first
      cases others with
      | nil => cases sized
      | cons other rest =>
          simp only [paramsAgree, List.zip_cons_cons, List.all_cons, Option.all_some,
            Bool.and_eq_true] at agrees
          obtain ⟨agree, rest_agree⟩ := agrees
          have simple : TypeName.innermost other = TypeName.innermost _ :=
            (beq_iff_eq.mp agree).symm.trans (beq_iff_eq.mp same)
          rw [List.map_cons, List.map_cons, simple,
            inductionHypothesis (Nat.succ.inj sized) rest_agree]

/-! ### Candidates -/

/-- A list without repetitions that has one member is that one. -/
theorem eq_singleton_of_nodup {α : Type} {items : List α} {only : α} (distinct : items.Nodup)
    (member : ∀ item, item ∈ items ↔ item = only) : items = [only] := by
  rw [← List.perm_singleton, List.perm_ext_iff_of_nodup distinct (List.nodup_singleton only)]
  intro item
  rw [member, List.mem_singleton]

section Candidates

variable {setting : Setting} {file : Source.File} {type : Source.Handle .type}
  {compiledType : Compiled.Handle .type} {name : String}

theorem mem_members_methodsByName {own : Source.Handle .method} :
    own ∈ (methodsByName file type).members name ↔ own ∈ overloads file type name := by
  rw [methodsByName, members_groupBy, List.mem_filter, List.mem_filter, decide_eq_true_iff,
    decide_eq_true_iff, and_assoc]
  exact Iff.rfl

theorem mem_members_compiledMethodsByName {other : Compiled.Handle .method} :
    other ∈ (compiledMethodsByName setting.pool compiledType).members name ↔
      other ∈ compiledOverloads setting.pool compiledType name :=
  State.mem_compiledMethodsByName

theorem nodup_members_compiledMethodsByName (built : setting.pool.IsBuilt) :
    ((compiledMethodsByName setting.pool compiledType).members name).Nodup := by
  rw [compiledMethodsByName, members_groupBy]
  exact ((built.wellFormed.methods_nodup compiledType).filter _).filter _

end Candidates

section Overloads

variable {setting : Setting} {state : State} {file : Source.File} {type : Source.Handle .type}
  {compiledType : Compiled.Handle .type} {name : String} {captured : List String}
  {image : Source.Handle .method → Compiled.Handle .method}
  {awaited : Set (Source.Handle .method)}

/-- All there is to check is in the lists of methods. -/
theorem faithful_iff : Faithful setting.pool file type compiledType name captured image ↔
    let sources := (methodsByName file type).members name
    let candidates := (compiledMethodsByName setting.pool compiledType).members name
    ((∀ own ∈ sources, image own ∈ candidates) ∧
      (∀ own ∈ sources, ∀ other ∈ sources, image own = image other → own = other) ∧
      ∀ other ∈ candidates, ∃ own ∈ sources, image own = other) ∧
    (∀ own ∈ sources, TakesAfter captured (file.paramTypes own)
      (setting.pool.methodAt (image own)).signature.params) ∧
    ∀ one ∈ candidates, ∀ other ∈ candidates,
      simpleParams setting.pool one = simpleParams setting.pool other → one = other := by
  simp only [mem_members_methodsByName, mem_members_compiledMethodsByName]
  constructor
  · rintro ⟨⟨maps, injects, covers⟩, takes, apart⟩
    exact ⟨⟨fun _ member => maps member, fun _ isOwn _ isOther => injects isOwn isOther,
      fun _ member => covers member⟩, takes, fun _ isOne _ isOther => apart isOne isOther⟩
  · rintro ⟨⟨maps, injects, covers⟩, takes, apart⟩
    exact ⟨⟨maps, fun own isOwn other isOther => injects own isOwn other isOther, covers⟩, takes,
      fun one isOne other isOther => apart one isOne other isOther⟩

instance : Decidable (Faithful setting.pool file type compiledType name captured image) :=
  decidable_of_iff _ faithful_iff.symm

/-- The methods of a name that have no link yet. -/
def unlinkedOverloads (file : Source.File) (type : Source.Handle .type) (name : String) :
    Set (Source.Handle .method) :=
  {own ∈ overloads file type name | file.isLinked own.ref = false}

namespace Faithful

/-- The match of a method with its counterpart parts no method from its own. -/
theorem inKeeping (faithful : Faithful setting.pool file type compiledType name captured image)
    (within : awaited ⊆ overloads file type name) {own : Source.Handle .method}
    (member : own ∈ overloads file type name) : InKeeping image awaited own (image own) := by
  intro method awaits
  constructor
  · intro same
    rw [ref_injective same]
  · intro same
    rw [faithful.paired.injOn member (within awaits) (compiledRef_injective same)]

/-- Methods of other names have nothing to do with these. -/
theorem inKeeping_of_name (faithful : Faithful setting.pool file type compiledType name captured image)
    (within : awaited ⊆ overloads file type name)
    {methods : List (Source.Handle .method)} {group : String}
    (isGroup : (group, methods) ∈ methodsByName file type) (different : group ≠ name)
    (own : Source.Ref) (other : Compiled.Ref)
    (between : Between methods ((compiledMethodsByName setting.pool compiledType).members group)
      own other) : InKeeping image awaited own other := by
  obtain ⟨a, member, c, isCandidate, rfl, rfl⟩ := between
  intro method awaits
  have named := ((State.mem_methodsByName isGroup).mp member).2.2
  have candidateNamed := (mem_members_compiledMethodsByName.mp isCandidate).2.2
  constructor
  · intro same
    obtain rfl := ref_injective same
    exact absurd (named.symm.trans (within awaits).2.2) different
  · intro same
    obtain rfl := compiledRef_injective same
    exact absurd (candidateNamed.symm.trans (faithful.paired.mapsTo (within awaits)).2.2) different

/-- The counterpart of an overload is the one that it takes while that is open. -/
theorem overloadCounterpart_eq (faithful : Faithful setting.pool file type compiledType name [] image)
    (built : setting.pool.IsBuilt) (same : file.Relinked state.file) {own : Source.Handle .method}
    (member : own ∈ overloads file type name)
    (opened : state.isConsumed (image own).ref = false) :
    state.overloadCounterpart? setting
      ((compiledMethodsByName setting.pool compiledType).members name) own = some (image own) := by
  obtain ⟨_, spells⟩ := faithful.takes own member
  have isCompiled := faithful.paired.mapsTo member
  have arity : (state.file.methodAt own).arity = (file.paramTypes own).length := by
    rw [same.methodAt, Source.File.paramTypes, List.length_map]
    rfl
  unfold State.overloadCounterpart?
  dsimp only
  rw [same.paramTypes]
  generalize isSameArity : (state.openOf _).filter _ = sameArity
  have mem_sameArity (other : Compiled.Handle .method) : other ∈ sameArity ↔
      (other ∈ compiledOverloads setting.pool compiledType name ∧
        state.isConsumed other.ref = false) ∧
          (setting.pool.methodAt other).arity = (file.paramTypes own).length := by
    rw [← isSameArity, List.mem_filter, State.mem_openOf, mem_members_compiledMethodsByName,
      decide_eq_true_iff, arity]
  have present : image own ∈ sameArity :=
    (mem_sameArity _).mpr ⟨⟨isCompiled, opened⟩, spells.length_eq.symm⟩
  have agreeing : sameArity.filter (fun candidate => paramsAgree (file.paramTypes own)
      (setting.pool.methodAt candidate).signature.params) = [image own] := by
    apply eq_singleton_of_nodup
    · rw [← isSameArity]
      exact (((nodup_members_compiledMethodsByName built).filter _).filter _).filter _
    · intro other
      rw [List.mem_filter]
      constructor
      · rintro ⟨isSame, agrees⟩
        obtain ⟨⟨isOther, _⟩, sized⟩ := (mem_sameArity other).mp isSame
        exact faithful.apart isOther isCompiled (innermost_unique spells sized agrees)
      · rintro rfl
        exact ⟨present, paramsAgree_of_spells spells⟩
  cases sameArity with
  | nil => cases present
  | cons first rest =>
      cases rest with
      | nil => rw [List.mem_singleton.mp present]
      | cons second rest => simp only [agreeing]

end Faithful

/-! ### Matching by name -/

section Serving

variable (faithful : Faithful setting.pool file type compiledType name captured image)
  (within : awaited ⊆ overloads file type name) (pending : Pending image awaited state)

include faithful within pending

/-- A method that is tried with its counterpart gets it. -/
theorem record_serves {own : Source.Handle .method} (member : own ∈ overloads file type name) :
    let later := state.record setting own (image own)
    Serves setting image awaited state later ∧ Served image awaited own later := by
  have keeping := faithful.inKeeping within member
  refine ⟨.of_tries (.single (.record keeping)) fun _ _ => id, fun awaits => ?_⟩
  rcases pending own awaits with matched | accepted
  · exact (State.record_extends setting state own (image own)).linkedMethod matched
  · have found := @State.link_record setting _ _ _ accepted own.ref
    rw [if_pos rfl] at found
    exact Source.File.linkedMethod_iff.mpr ⟨_, found⟩

/-- A method that is awaited gets its counterpart if it would take that while it is open.  The others
may take nothing else. -/
theorem recordSome_serves {own : Source.Handle .method}
    {counterpart : Option (Compiled.Handle .method)} (member : own ∈ overloads file type name)
    (chosen : state.isConsumed (image own).ref = false → counterpart = some (image own))
    (faithless : state.file.isLinked own.ref = false → own ∉ awaited →
      ∀ other, counterpart = some other → other = image own) :
    let later := state.recordSome setting own counterpart
    Serves setting image awaited state later ∧ Served image awaited own later := by
  cases linked : state.file.isLinked own.ref with
  | true =>
      -- Whatever it takes, it takes in vain.
      have inVain : Serves setting image awaited state (state.recordSome setting own counterpart) := by
        cases counterpart with
        | none => exact .refl state
        | some other =>
            exact ⟨.record_of_linked linked other.ref,
              fun pending => pending.tries (.record_of_linked linked other.ref)⟩
      exact ⟨inVain, (inVain.pending pending).served (inVain.tries.extended.isLinked linked)⟩
  | false =>
      by_cases awaits : own ∈ awaited
      · rw [chosen (State.accepts_iff.mp (pending.accepts awaits linked)).1]
        exact record_serves faithful within pending member
      · cases counterpart with
        | none => exact ⟨.refl state, fun isAwaited => absurd isAwaited awaits⟩
        | some other =>
            rw [faithless linked awaits other rfl]
            exact record_serves faithful within pending member

/-- The only method of a name gets the only compiled one, unless that is taken. -/
theorem recordOnly_serves {only : Source.Handle .method} (member : only ∈ overloads file type name) :
    let later :=
      if state.isConsumed (image only).ref then state else state.record setting only (image only)
    Serves setting image awaited state later ∧ Served image awaited only later := by
  dsimp only
  split
  · next taken =>
    refine ⟨.refl state, fun awaits => (pending only awaits).resolve_right fun accepted => ?_⟩
    exact absurd ((State.accepts_iff.mp accepted).1.symm.trans taken) Bool.false_ne_true
  · exact record_serves faithful within pending member

end Serving

/-- Overloads take their counterparts one after the other, if all that are open are awaited. -/
theorem matchOverloads_serves (built : setting.pool.IsBuilt)
    (faithful : Faithful setting.pool file type compiledType name [] image)
    (within : awaited ⊆ overloads file type name)
    (whole : unlinkedOverloads file type name ⊆ awaited) (pending : Pending image awaited state)
    (extended : file.Extends state.file) (same : file.Relinked state.file)
    {methods : List (Source.Handle .method)}
    (listed : ∀ own ∈ methods, own ∈ overloads file type name) :
    let candidates := (compiledMethodsByName setting.pool compiledType).members name
    let later := methods.foldl (State.matchOverload setting candidates) state
    Serves setting image awaited state later ∧ ∀ own ∈ methods, Served image awaited own later := by
  refine foldl_serves methods pending (fun own isMember current before now => ?_)
    fun own current later grown served => served.mono grown
  refine recordSome_serves faithful within now (listed own isMember) ?chosen ?faithless
  case chosen =>
    exact faithful.overloadCounterpart_eq built (same.trans before.relinked) (listed own isMember)
  case faithless =>
    intro unlinked others
    refine absurd (whole ⟨listed own isMember, ?_⟩) others
    rw [Bool.eq_false_iff] at unlinked ⊢
    exact fun linked => unlinked ((extended.trans before.extended).isLinked linked)

/-- Methods of the name are compared by arity and parameter types.  This is so for all but constructors
of inner types. -/
def ComparedByName (pool : Compiled.Pool) (compiledType : Compiled.Handle .type) (name : String) :
    Prop :=
  name = ReservedName.constructor → (pool.typeAt compiledType).outerTypes = []

section ByName

variable (built : setting.pool.IsBuilt)
  (faithful : Faithful setting.pool file type compiledType name captured image)
  (within : awaited ⊆ overloads file type name) (pending : Pending image awaited state)
  (bare : ComparedByName setting.pool compiledType name →
    captured = [] ∧ unlinkedOverloads file type name ⊆ awaited)

include built faithful within pending bare

/-- The methods of the name are matched by name. -/
theorem matchNamed_serves (extended : file.Extends state.file) (same : file.Relinked state.file)
    {methods : List (Source.Handle .method)} (isGroup : (name, methods) ∈ methodsByName file type) :
    let later := state.matchNamed setting type compiledType
      (compiledMethodsByName setting.pool compiledType) (name, methods)
    Serves setting image awaited state later ∧
      (ComparedByName setting.pool compiledType name →
        ∀ own ∈ methods, Served image awaited own later) := by
  have listed (own : Source.Handle .method) (member : own ∈ methods) :
      own ∈ overloads file type name := (State.mem_methodsByName isGroup).mp member
  have mem_candidates {own : Source.Handle .method} (member : own ∈ methods) : image own ∈
      (compiledMethodsByName setting.pool compiledType).members name :=
    mem_members_compiledMethodsByName.mpr (faithful.paired.mapsTo (listed own member))
  dsimp only
  unfold State.matchNamed
  dsimp only
  split
  · next first rest none_compiled =>
    have isCandidate := mem_candidates List.mem_cons_self
    rw [none_compiled] at isCandidate
    cases isCandidate
  · next only candidate single =>
    have isCandidate := mem_candidates (List.mem_singleton_self only)
    rw [single] at isCandidate
    obtain rfl := List.mem_singleton.mp isCandidate
    obtain ⟨serves, served⟩ := @recordOnly_serves setting _ _ _ _ _ _ _ _ faithful within pending
      only (listed only (List.mem_singleton_self only))
    exact ⟨serves, fun _ => List.forall_mem_singleton.mpr served⟩
  · split
    · next waits =>
      simp only [Bool.and_eq_true, decide_eq_true_eq, Bool.not_eq_true', List.isEmpty_eq_false_iff]
        at waits
      exact ⟨.refl state, fun compared => absurd (compared waits.1) waits.2⟩
    · next compared =>
      obtain ⟨rfl, whole⟩ := bare fun isConstructor => by simpa [isConstructor] using compared
      obtain ⟨serves, served⟩ :=
        matchOverloads_serves built faithful within whole pending extended same listed
      exact ⟨serves, fun _ => served⟩

end ByName

/-- Matching all methods by name serves the methods of one name, and matches them unless they are
constructors of an inner type. -/
theorem matchByName_serves (built : setting.pool.IsBuilt)
    (faithful : Faithful setting.pool state.file type compiledType name captured image)
    (within : awaited ⊆ overloads state.file type name) (pending : Pending image awaited state)
    (bare : ComparedByName setting.pool compiledType name →
      captured = [] ∧ unlinkedOverloads state.file type name ⊆ awaited) :
    let later := state.matchByName setting type compiledType
    Serves setting image awaited state later ∧
      (ComparedByName setting.pool compiledType name → ∀ own, Served image awaited own later) := by
  obtain ⟨serves, ends⟩ := @foldl_serves setting image _ state _
    (State.matchNamed setting type compiledType
      (compiledMethodsByName setting.pool compiledType))
    (fun group current => group.1 = name → ComparedByName setting.pool compiledType name →
      ∀ own ∈ group.2, Served image awaited own current)
    (methodsByName state.file type) pending
    (fun group isGroup current before now => by
      obtain ⟨key, methods⟩ := group
      by_cases isName : key = name
      · subst isName
        obtain ⟨serves, served⟩ := matchNamed_serves built faithful within now bare before.extended
          before.relinked isGroup
        exact ⟨serves, fun _ => served⟩
      · exact ⟨.of_tries State.matchNamed_tries (faithful.inKeeping_of_name within isGroup isName),
          fun isKey => absurd isKey isName⟩)
    fun group current later grown served isKey compared own member =>
      (served isKey compared own member).mono grown
  refine ⟨serves, fun compared own awaits => ?_⟩
  obtain ⟨listed, noBlock, named⟩ := within awaits
  have isGroup : ((state.file.methodAt own).name, _) ∈ methodsByName state.file type :=
    mem_groupBy_of_mem (List.mem_filter.mpr ⟨listed, decide_eq_true noBlock⟩)
  have member := (State.mem_methodsByName isGroup).mpr ⟨listed, noBlock, rfl⟩
  exact ends _ isGroup named compared own member awaits

/-- What is open when the methods of two types start to be matched is pending. -/
theorem Faithful.pending
    (faithful : Faithful setting.pool state.file type compiledType name captured image)
    (within : awaited ⊆ unlinkedOverloads state.file type name)
    (opened : ∀ other ∈ (setting.pool.typeAt compiledType).methods,
      state.isConsumed other.ref = false) : Pending image awaited state := by
  intro own awaits
  obtain ⟨member, unlinked⟩ := within awaits
  exact .inr (State.accepts_iff.mpr ⟨opened _ (faithful.paired.mapsTo member).1, unlinked⟩)

/-- If the overloads of a name correspond to compiled methods that are open, every one of them that is
not linked yet is linked to its counterpart, in whatever order they are declared. -/
theorem matchMethods_overloads (built : setting.pool.IsBuilt)
    (opened : ∀ other ∈ (setting.pool.typeAt compiledType).methods,
      state.isConsumed other.ref = false)
    (plain : name = ReservedName.constructor →
      ∀ field ∈ (setting.pool.typeAt compiledType).fields,
        ReservedName.isOuterThisField (setting.pool.fieldAt field).name = false)
    (faithful : Faithful setting.pool state.file type compiledType name [] image) :
    ∀ own ∈ overloads state.file type name, state.file.isLinked own.ref = false →
      (state.matchMethods setting type compiledType).file.linkedMethod? own =
        some (image own) := by
  intro own member unlinked
  have pending := faithful.pending (Set.Subset.refl _) opened
  obtain ⟨_, served⟩ := matchByName_serves built faithful (fun _ awaits => awaits.1) pending
    fun _ => ⟨rfl, Set.Subset.refl _⟩
  have byName := served (fun isConstructor => built.outerTypes_eq_nil (plain isConstructor)) own
  exact byName.mono State.matchMethods_tries.extended ⟨member, unlinked⟩

end Overloads

/-! ### Three overloads in another order -/

/-- Three overloads and a bridge. -/
def overloadPlan : Plan :=
  let method (params : List String) : Compiled.Signature :=
    { name := "m", params, returnType := "void" }
  let steps : List Compiled.Step :=
    [.type "p.A", .method ⟨0⟩ (method []) {}, .method ⟨0⟩ (method ["int"]) {},
      .method ⟨0⟩ (method ["java.lang.String"]) {},
      .method ⟨0⟩ (method ["java.lang.Object"]) [.bridge]]
  { pool := (({} : Compiled.Builder).performAll steps).1.finish.pool }

/-- The overloads that the source declares. -/
def overloadFile : Source.File :=
  ({ path := "p/A.src.json", package := "p" } : Source.File).performAll
    [.type "A" none none, .method ⟨0⟩ "m" none false none, .param ⟨1⟩ "s" (some "String") none,
      .method ⟨0⟩ "m" none false none, .method ⟨0⟩ "m" none false none,
      .param ⟨3⟩ "i" (some "int") none]

/-- Which compiled overload is that of which. -/
def overloadImage (own : Source.Handle .method) : Compiled.Handle .method :=
  match own.index with
  | 1 => ⟨2⟩
  | 2 => ⟨0⟩
  | _ => ⟨1⟩

theorem overloadPlan_isBuilt : overloadPlan.pool.IsBuilt := by
  refine ⟨_, Compiled.Builder.Reachable.empty.performAll ?admitted, rfl⟩
  exact ⟨trivial, Nat.zero_lt_one, Nat.zero_lt_one, Nat.zero_lt_one, Nat.zero_lt_one, trivial⟩

/-- The file after the methods of its type were matched. -/
def overloadResult : Source.File :=
  (({ file := overloadFile } : State).matchMethods (overloadPlan.setting 0) ⟨0⟩ ⟨0⟩).file

theorem matchMethods_overloads_sample :
    overloadResult.linkedMethod? ⟨1⟩ = some ⟨2⟩ ∧ overloadResult.linkedMethod? ⟨2⟩ = some ⟨0⟩ ∧
      overloadResult.linkedMethod? ⟨3⟩ = some ⟨1⟩ := by
  have faithful : Faithful (overloadPlan.setting 0).pool overloadFile ⟨0⟩ ⟨0⟩ "m" []
      overloadImage := by
    decide +kernel
  have listed : ∀ i ∈ [1, 2, 3], (⟨i⟩ : Source.Handle .method) ∈
      (methodsByName overloadFile ⟨0⟩).members "m" := by
    decide +kernel
  have matched := @matchMethods_overloads (overloadPlan.setting 0) { file := overloadFile } ⟨0⟩ ⟨0⟩
    "m" overloadImage overloadPlan_isBuilt (by decide +kernel) (by decide +kernel) faithful
  exact ⟨matched ⟨1⟩ (mem_members_methodsByName.mp (listed 1 (by decide))) rfl,
    matched ⟨2⟩ (mem_members_methodsByName.mp (listed 2 (by decide))) rfl,
    matched ⟨3⟩ (mem_members_methodsByName.mp (listed 3 (by decide))) rfl⟩

end Correlate.Matching
