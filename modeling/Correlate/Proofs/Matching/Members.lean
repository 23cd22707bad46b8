/-
Module: Correlate.Proofs.Matching.Members
Purpose: What matching the fields and methods of two types comes to.
Main exports: FieldsFit, MethodsFit, State.matchField_links, State.matchMethods_links
-/
import Correlate.Matching.Field
import Correlate.Matching.Method
import Correlate.Proofs.Matching.Groups

namespace Correlate.Matching

/-- A match of two fields of one name. -/
def FieldsFit (setting : Setting) (file : Source.File) (type : Source.Handle .type)
    (compiledType : Compiled.Handle .type) (own : Source.Ref) (other : Compiled.Ref) : Prop :=
  ∃ a ∈ (file.typeAt type).fields, ∃ c ∈ (setting.pool.typeAt compiledType).fields,
    own = a.ref ∧ other = c.ref ∧ (setting.pool.fieldAt c).name = (file.fieldAt a).name

/-- A match of two methods, where the source method is no instance initializer block.  A bridge is
only matched with what may denote it. -/
def MethodsFit (setting : Setting) (file : Source.File) (type : Source.Handle .type)
    (compiledType : Compiled.Handle .type) (own : Source.Ref) (other : Compiled.Ref) : Prop :=
  ∃ a ∈ (file.typeAt type).methods, ∃ c ∈ (setting.pool.typeAt compiledType).methods,
    own = a.ref ∧ other = c.ref ∧ (file.methodAt a).kind ≠ .instanceInitializer ∧
      ((setting.pool.methodAt c).modifiers.isBridge = true →
        (setting.pool.methodAt c).id ∈ file.signatureIds type a)

namespace State

variable {setting : Setting} {state : State} {type : Source.Handle .type}
  {compiledType : Compiled.Handle .type}

/-! ### Fields -/

/-- Each field is matched with an open one of its name if there is any. -/
theorem matchFieldsByName_links (formed : state.file.WellFormed)
    (unlinked : ∀ own ∈ (state.file.typeAt type).fields, state.file.isLinked own.ref = false) :
    LinkSteps setting (FieldsFit setting state.file type compiledType) state
      ((state.file.typeAt type).fields.foldl (matchField setting compiledType) state) := by
  have pass := @foldl_links _ setting state (matchField setting compiledType)
    (fun field own other => own = field.ref ∧
      FieldsFit setting state.file type compiledType own other)
    (fun field current => current.file.isLinked field.ref = false) (fun _ _ => True)
    (state.file.typeAt type).fields
  refine (pass ?advance ?kept (fun _ _ _ _ _ _ => trivial) unlinked).1.mono
    fun _ _ ⟨_, _, permission⟩ => permission.2
  case kept =>
    refine (formed.fields_nodup type).imp fun {field next} different current later steps clear => ?_
    exact steps.unlinked clear fun _ same => different (ref_injective same.1.symm)
  case advance =>
    intro field listed current steps clear
    refine ⟨?_, trivial⟩
    unfold matchField
    split
    · next counterpart found =>
      have chosen := List.find?_some found
      simp only [Bool.and_eq_true, beq_iff_eq, Bool.not_eq_true',
        steps.gains.relinked.fieldAt] at chosen
      refine .single (.accept ⟨rfl, ?_⟩ (accepts_iff.mpr ⟨chosen.2, clear⟩))
      exact ⟨field, listed, counterpart, List.mem_of_find?_eq_some found, rfl, rfl, chosen.1⟩
    · exact .refl

/-! ### Methods -/

/-- An open method is matched with an open compiled one if there is any. -/
theorem recordSome_links {permitted : Source.Ref → Compiled.Ref → Prop}
    {own : Source.Handle .method} {counterpart : Option (Compiled.Handle .method)}
    (unlinked : state.file.isLinked own.ref = false)
    (chosen : ∀ other, counterpart = some other →
      permitted own.ref other.ref ∧ state.isConsumed other.ref = false) :
    LinkSteps setting permitted state (state.recordSome setting own counterpart) := by
  unfold recordSome
  split
  · next other =>
    obtain ⟨permission, opened⟩ := chosen other rfl
    exact .single (.accept permission (accepts_iff.mpr ⟨opened, unlinked⟩))
  · exact .refl

theorem mem_openOf {kind : Compiled.Kind} {elements : List (Compiled.Handle kind)}
    {element : Compiled.Handle kind} :
    element ∈ state.openOf elements ↔ element ∈ elements ∧ state.isConsumed element.ref = false := by
  simp [openOf]

/-- The counterpart of an overloaded method is an open candidate. -/
theorem overloadCounterpart_open {candidates : List (Compiled.Handle .method)}
    {method : Source.Handle .method} {other : Compiled.Handle .method}
    (found : state.overloadCounterpart? setting candidates method = some other) :
    other ∈ candidates ∧ state.isConsumed other.ref = false := by
  unfold overloadCounterpart? at found
  dsimp only at found
  split at found
  · cases found
  · next only single =>
    obtain rfl := Option.some.inj found
    have member := List.mem_of_mem_filter (single ▸ List.mem_singleton_self only)
    exact mem_openOf.mp member
  · split at found
    · next only single =>
      obtain rfl := Option.some.inj found
      have member := List.mem_of_mem_filter (single ▸ List.mem_singleton_self only)
      exact mem_openOf.mp (List.mem_of_mem_filter member)
    · cases found

theorem signatureCounterpart_open {method : Source.Handle .method} {other : Compiled.Handle .method}
    (found : state.signatureCounterpart? setting type compiledType method = some other) :
    other ∈ (setting.pool.typeAt compiledType).methods ∧ state.isConsumed other.ref = false ∧
      (setting.pool.methodAt other).id ∈ state.file.signatureIds type method := by
  have chosen := List.find?_some found
  simp only [Bool.and_eq_true, Bool.not_eq_true', List.contains_iff_mem] at chosen
  exact ⟨List.mem_of_find?_eq_some found, chosen⟩

theorem innerConstructorCounterpart_open {constructors : List (Compiled.Handle .method)}
    {method : Source.Handle .method} {other : Compiled.Handle .method}
    (found : state.innerConstructorCounterpart? setting compiledType constructors method =
      some other) :
    other ∈ constructors ∧ state.isConsumed other.ref = false := by
  unfold innerConstructorCounterpart? at found
  dsimp only at found
  split at found
  · cases found
  · split at found
    · next only single =>
      obtain rfl := Option.some.inj found
      exact mem_openOf.mp (List.mem_of_mem_filter (single ▸ List.mem_singleton_self only))
    · cases found

/-- Overloaded methods are matched one after the other with open candidates. -/
theorem matchOverloads_links {methods : List (Source.Handle .method)}
    {candidates : List (Compiled.Handle .method)} (methods_nodup : methods.Nodup)
    (unlinked : ∀ own ∈ methods, state.file.isLinked own.ref = false) :
    LinkSteps setting (Between methods candidates) state
      (methods.foldl (matchOverload setting candidates) state) := by
  have pass := @foldl_links _ setting state (matchOverload setting candidates)
    (fun method own other => own = method.ref ∧ ∃ c ∈ candidates, other = c.ref)
    (fun method current => current.file.isLinked method.ref = false) (fun _ _ => True) methods
  refine (pass ?advance ?kept (fun _ _ _ _ _ _ => trivial) unlinked).1.mono ?weaker
  case weaker =>
    rintro own other ⟨method, member, isOwn, c, isCandidate, isOther⟩
    exact ⟨method, member, c, isCandidate, isOwn, isOther⟩
  case kept =>
    refine methods_nodup.imp fun {method next} different current later steps clear => ?_
    exact steps.unlinked clear fun _ same => different (ref_injective same.1.symm)
  case advance =>
    refine fun method _ current _ clear => ⟨recordSome_links clear fun other found => ?_, trivial⟩
    obtain ⟨isCandidate, opened⟩ := overloadCounterpart_open found
    exact ⟨⟨rfl, other, isCandidate, rfl⟩, opened⟩

/-- The methods of one name are matched, or something is noted where the name has no compiled
method. -/
theorem matchNamed_links {compiled : Grouping String (Compiled.Handle .method)} {name : String}
    {methods : List (Source.Handle .method)} (methods_nodup : methods.Nodup)
    (unlinked : ∀ own ∈ methods, state.file.isLinked own.ref = false) :
    let final := state.matchNamed setting type compiledType compiled (name, methods)
    LinkSteps setting (Between methods (compiled.members name)) state final ∧
      (methods ≠ [] → compiled.members name = [] →
        ReservedName.isConstructorOrInitializer name = false → final.Noticed) := by
  dsimp only
  unfold matchNamed
  dsimp only
  split
  · next first rest none_compiled =>
    split
    · next reserved =>
      exact ⟨.refl, fun _ _ declared => absurd (reserved.symm.trans declared) nofun⟩
    · exact ⟨.single (.note _ nofun), fun _ _ _ => noticed_notice _ _⟩
  · next only candidate single =>
    rw [single]
    refine ⟨?_, fun _ none_compiled => absurd none_compiled nofun⟩
    split
    · exact .refl
    · next opened =>
      refine .single (.accept ?_ (accepts_iff.mpr ⟨Bool.eq_false_iff.mpr opened, ?_⟩))
      · exact ⟨only, List.mem_singleton_self only, candidate, List.mem_singleton_self candidate,
          rfl, rfl⟩
      · exact unlinked only (List.mem_singleton_self only)
  · next some_compiled _ =>
    constructor
    · split
      · exact .refl
      · exact matchOverloads_links methods_nodup unlinked
    · intro present none_compiled
      obtain ⟨first, rest, rfl⟩ := List.exists_cons_of_ne_nil present
      exact absurd none_compiled (some_compiled first rest rfl)

/-- A method that has compiled methods of its name is linked, implicit, or noted about. -/
theorem noticeOpenMethod_links {permitted : Source.Ref → Compiled.Ref → Prop}
    {compiled : Grouping String (Compiled.Handle .method)} {name : String}
    {method : Source.Handle .method} :
    let final := state.noticeOpenMethod type compiled name method
    LinkSteps setting permitted state final ∧
      ((state.file.methodAt method).implicit = false → final.Settled method.ref) := by
  dsimp only
  unfold noticeOpenMethod
  split
  · next skipped =>
    refine ⟨.refl, fun declared => .inl ?_⟩
    rw [declared, Bool.or_false] at skipped
    exact skipped
  · refine ⟨.single (.note _ ?_), fun _ => .inr (noticed_notice _ _)⟩
    split <;> exact nofun

/-- The methods with compiled methods of their names are noted about where they stay open. -/
theorem noticeOpenMethods_links {permitted : Source.Ref → Compiled.Ref → Prop}
    {compiled : Grouping String (Compiled.Handle .method)}
    {groups : Grouping String (Source.Handle .method)} :
    let final := groups.foldl (fun state (name, methods) =>
      methods.foldl (noticeOpenMethod type compiled name) state) state
    LinkSteps setting permitted state final ∧
      ∀ group ∈ groups, ∀ own ∈ group.2,
        (state.file.methodAt own).implicit = false → final.Settled own.ref := by
  refine @foldl_each_ends _ setting permitted _
    (fun group current => ∀ own ∈ group.2,
      (state.file.methodAt own).implicit = false → current.Settled own.ref) groups state ?_ ?_
  · intro group _ current before
    refine @foldl_each_ends _ setting permitted (noticeOpenMethod type compiled group.1)
      (fun own later => (state.file.methodAt own).implicit = false → later.Settled own.ref)
      group.2 current ?_ fun _ _ _ _ steps settled declared => steps.settled (settled declared)
    intro own _ later within
    have same := before.gains.relinked.trans within.gains.relinked
    rw [← same.methodAt]
    exact noticeOpenMethod_links
  · exact fun _ _ _ _ steps settled own member declared =>
      steps.settled (settled own member declared)

/-- The methods of a type that may be matched, in groups by name. -/
theorem mem_methodsByName {file : Source.File} {name : String}
    {methods : List (Source.Handle .method)}
    (member : (name, methods) ∈ methodsByName file type) {own : Source.Handle .method} :
    own ∈ methods ↔ own ∈ (file.typeAt type).methods ∧
      (file.methodAt own).kind ≠ .instanceInitializer ∧ (file.methodAt own).name = name := by
  rw [(mem_groupBy.mp member).2, List.mem_filter, List.mem_filter, decide_eq_true_iff,
    decide_eq_true_iff, and_assoc]

theorem mem_compiledMethodsByName {name : String} {other : Compiled.Handle .method} :
    other ∈ (compiledMethodsByName setting.pool compiledType).members name ↔
      other ∈ (setting.pool.typeAt compiledType).methods ∧
        (setting.pool.methodAt other).modifiers.isBridge = false ∧
          (setting.pool.methodAt other).name = name := by
  rw [compiledMethodsByName, members_groupBy, List.mem_filter, List.mem_filter, decide_eq_true_iff,
    Bool.not_eq_true', and_assoc]

/-- What is no bridge may be matched without a look at signatures. -/
theorem methodsFit_of_member {own : Source.Handle .method} {other : Compiled.Handle .method}
    {name : String} (listed : own ∈ (state.file.typeAt type).methods)
    (noBlock : (state.file.methodAt own).kind ≠ .instanceInitializer)
    (member : other ∈ (compiledMethodsByName setting.pool compiledType).members name) :
    MethodsFit setting state.file type compiledType own other := by
  obtain ⟨compiledListed, noBridge, _⟩ := mem_compiledMethodsByName.mp member
  exact ⟨own, listed, other, compiledListed, rfl, rfl, noBlock,
    fun isBridge => absurd (noBridge.symm.trans isBridge) nofun⟩

/-- All methods of a type are matched in groups by name. -/
theorem matchByName_links (formed : state.file.WellFormed)
    (unlinked : ∀ own ∈ (state.file.typeAt type).methods, state.file.isLinked own.ref = false) :
    let compiled := compiledMethodsByName setting.pool compiledType
    let groups := methodsByName state.file type
    let final := groups.foldl (matchNamed setting type compiledType compiled) state
    LinkSteps setting (MethodsFit setting state.file type compiledType) state final ∧
      ∀ group ∈ groups, compiled.members group.1 = [] →
        ReservedName.isConstructorOrInitializer group.1 = false → final.Noticed := by
  intro compiled groups
  have pass := @foldl_links _ setting state (matchNamed setting type compiledType compiled)
    (fun group => Between group.2 (compiled.members group.1))
    (fun group current => ∀ own ∈ group.2, current.file.isLinked own.ref = false)
    (fun group current => compiled.members group.1 = [] →
      ReservedName.isConstructorOrInitializer group.1 = false → current.Noticed) groups
  obtain ⟨steps, ends⟩ := by
    refine pass ?advance ?kept ?lasting ?ready
    case advance =>
      rintro ⟨name, methods⟩ member current _ clear
      have methods_nodup : methods.Nodup := by
        rw [(mem_groupBy.mp member).2]
        exact ((formed.methods_nodup type).filter _).filter _
      obtain ⟨⟨first, listed, named⟩, isGroup⟩ := mem_groupBy.mp member
      have present : methods ≠ [] := by
        rw [isGroup]
        exact List.ne_nil_of_mem (List.mem_filter.mpr ⟨listed, decide_eq_true named⟩)
      obtain ⟨groupSteps, noted⟩ := matchNamed_links methods_nodup clear
      exact ⟨groupSteps, noted present⟩
    case kept =>
      refine (groupBy_keys_apart _ _).imp_of_mem
        fun {group next} isGroup isNext apart current later steps clear own member => ?_
      apply steps.unlinked (clear own member)
      rintro _ ⟨a, isMember, _, _, same, _⟩
      obtain rfl := ref_injective same
      exact apart (((mem_methodsByName isGroup).mp isMember).2.2.symm.trans
        ((mem_methodsByName isNext).mp member).2.2)
    case lasting =>
      exact fun group _ current later steps noted none_compiled declared =>
        steps.noticed (noted none_compiled declared)
    case ready =>
      intro group member own isMember
      exact unlinked own ((mem_methodsByName member).mp isMember).1
  refine ⟨steps.mono ?_, ends⟩
  rintro _ _ ⟨group, member, own, isMember, other, isCompiled, rfl, rfl⟩
  obtain ⟨listed, noBlock, _⟩ := (mem_methodsByName member).mp isMember
  exact methodsFit_of_member listed noBlock isCompiled

/-- Every method of a type is matched, or something is noted; only constructors and initializers may
stay open without a note. -/
theorem matchMethods_links (formed : state.file.WellFormed)
    (unlinked : ∀ own ∈ (state.file.typeAt type).methods, state.file.isLinked own.ref = false) :
    let final := state.matchMethods setting type compiledType
    LinkSteps setting (MethodsFit setting state.file type compiledType) state final ∧
      ∀ own ∈ (state.file.typeAt type).methods,
        (state.file.methodAt own).kind ≠ .instanceInitializer →
        (state.file.methodAt own).implicit = false →
        ReservedName.isConstructorOrInitializer (state.file.methodAt own).name = false →
        final.Settled own.ref := by
  let compiled := compiledMethodsByName setting.pool compiledType
  let groups := methodsByName state.file type
  let shared := groups.filter fun (name, _) => !(compiled.members name).isEmpty
  let byName := groups.foldl (matchNamed setting type compiledType compiled) state
  let bySignature := shared.foldl (fun state (_, methods) =>
    methods.foldl (matchBySignature setting type compiledType) state) byName
  let byOuterTypes := (groups.members ReservedName.constructor).foldl
    (matchInnerConstructor setting compiledType (compiled.members ReservedName.constructor))
    bySignature
  obtain ⟨nameSteps, nameEnds⟩ :=
    @matchByName_links setting state type compiledType formed unlinked
  have signatureSteps :
      LinkSteps setting (MethodsFit setting state.file type compiledType) byName bySignature := by
    refine foldl_each _ fun group isShared current before =>
      foldl_each _ fun own member later within => ?_
    unfold matchBySignature
    split
    · exact .refl
    · next unmatched =>
      apply recordSome_links (Bool.eq_false_iff.mpr unmatched)
      intro other found
      obtain ⟨listed, noBlock, _⟩ :=
        (mem_methodsByName (List.mem_filter.mp isShared).1).mp member
      obtain ⟨compiledListed, opened, denoted⟩ := signatureCounterpart_open found
      refine ⟨⟨own, listed, other, compiledListed, rfl, rfl, noBlock, fun _ => ?_⟩, opened⟩
      have same := nameSteps.gains.relinked.trans
        (before.gains.relinked.trans within.gains.relinked)
      rw [← same.signatureIds]
      exact denoted
  have outerSteps :
      LinkSteps setting (MethodsFit setting state.file type compiledType) bySignature
        byOuterTypes := by
    apply foldl_each _
    intro own member later _
    rw [show groups = methodsByName state.file type from rfl, methodsByName, members_groupBy]
      at member
    unfold matchInnerConstructor
    split
    · exact .refl
    · next unmatched =>
      apply recordSome_links (Bool.eq_false_iff.mpr unmatched)
      intro other found
      obtain ⟨declared, _⟩ := List.mem_filter.mp member
      obtain ⟨listed, noBlock⟩ := List.mem_filter.mp declared
      obtain ⟨isConstructor, opened⟩ := innerConstructorCounterpart_open found
      exact ⟨methodsFit_of_member listed (of_decide_eq_true noBlock) isConstructor, opened⟩
  have steps : LinkSteps setting (MethodsFit setting state.file type compiledType) state
      byOuterTypes := nameSteps.trans (signatureSteps.trans outerSteps)
  obtain ⟨noteSteps, noted⟩ := @noticeOpenMethods_links setting byOuterTypes type
    (MethodsFit setting state.file type compiledType) compiled shared
  refine ⟨steps.trans noteSteps, fun own listed noBlock declared named => ?_⟩
  have isGroup : ((state.file.methodAt own).name, _) ∈ groups :=
    mem_groupBy_of_mem (List.mem_filter.mpr ⟨listed, decide_eq_true noBlock⟩)
  by_cases none_compiled : compiled.members (state.file.methodAt own).name = []
  · refine .inr (LinkSteps.noticed (signatureSteps.trans (outerSteps.trans noteSteps)) ?_)
    exact nameEnds _ isGroup none_compiled named
  · refine noted _ (List.mem_filter.mpr ⟨isGroup, by simpa using none_compiled⟩) own
      ((mem_methodsByName isGroup).mpr ⟨listed, noBlock, rfl⟩) ?_
    rw [steps.gains.relinked.methodAt]
    exact declared

end State

end Correlate.Matching
