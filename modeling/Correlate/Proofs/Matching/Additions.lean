/-
Module: Correlate.Proofs.Matching.Additions
Purpose: What matching adds to a file and to the notices, whatever it starts from.
Main exports: Adds, State.matchBody_adds, State.matchTypes_adds
-/
import Correlate.Matching.Type
import Correlate.Proofs.Matching.Bodies
import Correlate.Proofs.Source.Nesting
import Correlate.Proofs.Source.Preservation

namespace Correlate.Source.File.Extends

variable {file later : File}

/-- Lambdas stay where they are. -/
theorem lambdasWithin (extended : file.Extends later) (limit : Nat) (method : Handle .method) :
    later.LambdasWithin limit method ↔ file.LambdasWithin limit method := by
  have kept (method : Handle .method) :
      (later.methodAt method).lambdas = (file.methodAt method).lambdas :=
    extended.readMethod Method.lambdas (fun _ _ _ => rfl) method
  induction limit generalizing method with
  | zero => rw [LambdasWithin, LambdasWithin, kept]
  | succ limit inductionHypothesis =>
      rw [LambdasWithin, LambdasWithin, kept]
      exact forall₂_congr fun lambda _ => inductionHypothesis lambda

theorem shallow (extended : file.Extends later) (shallow : file.Shallow) : later.Shallow := by
  intro type method listed
  rw [extended.typeMethods] at listed
  exact (extended.lambdasWithin _ _).mpr (shallow type method listed)

end Correlate.Source.File.Extends

namespace Correlate.Matching

/-!
Every undertaking of matching is made of matches, stand-ins, resolved names and notices.  None of them
takes anything away from the file, and none but the attempt to match a body beyond the limit says that
lambdas are nested too deeply.  This needs nothing of the state that matching starts from.
-/

/-- The file only gains links, stand-ins and resolved names, and what is noted is permitted.  A number
that is no word stays noted. -/
structure Adds (permitted : Finding → Prop) (state later : State) : Prop where
  preserved : state.file.Preserves later.file
  notices : ∀ notice ∈ later.notices, notice ∈ state.notices ∨ permitted notice.finding
  overflow : state.overflow = true → later.overflow = true

namespace Adds

variable {permitted : Finding → Prop} {setting : Setting} {state later final : State}

theorem extended (adds : Adds permitted state later) : state.file.Extends later.file :=
  adds.preserved.toExtends

theorem refl (state : State) : Adds permitted state state :=
  ⟨.refl _, fun _ => .inl, id⟩

theorem trans (first : Adds permitted state later) (second : Adds permitted later final) :
    Adds permitted state final where
  preserved := first.preserved.trans second.preserved
  notices notice noted := (second.notices notice noted).elim (first.notices notice) .inr
  overflow raised := second.overflow (first.overflow raised)

/-- The file gains something while nothing is noted. -/
theorem of_file {file : Source.File} (preserved : state.file.Preserves file) :
    Adds permitted state { state with file } :=
  ⟨preserved, fun _ => .inl, id⟩

/-- Aliases and the like change. -/
theorem of_same (file_kept : later.file = state.file) (notices_kept : later.notices = state.notices)
    (overflow_kept : state.overflow = true → later.overflow = true) :
    Adds permitted state later where
  preserved := by rw [file_kept]; exact .refl _
  notices notice noted := .inl (by rw [← notices_kept]; exact noted)
  overflow := overflow_kept

theorem addAlias (symbol slot : String) : Adds permitted state (state.addAlias symbol slot) :=
  .of_same rfl rfl id

theorem notice (line : Option Nat) {finding : Finding} (allowed : permitted finding) :
    Adds permitted state (state.notice line finding) where
  preserved := .refl _
  notices notice noted := (Array.mem_push.mp noted).imp_right fun same => by rw [same]; exact allowed
  overflow := id

theorem foldl {α : Type} {step : State → α → State} {items : List α}
    (each : ∀ item ∈ items, ∀ current, Adds permitted state current →
      Adds permitted current (step current item)) :
    Adds permitted state (items.foldl step state) := by
  induction items generalizing state with
  | nil => exact .refl state
  | cons item rest inductionHypothesis =>
      have first := each item List.mem_cons_self state (.refl state)
      exact first.trans (inductionHypothesis fun other member current added =>
        each other (List.mem_cons_of_mem _ member) current (first.trans added))

end Adds

/-- No variable is found to stand for a slot either. -/
structure AddsUnaliased (permitted : Finding → Prop) (state later : State) : Prop
    extends Adds permitted state later where
  aliases : later.aliases = state.aliases

namespace AddsUnaliased

variable {permitted : Finding → Prop} {setting : Setting} {state later final : State}

theorem refl (state : State) : AddsUnaliased permitted state state :=
  ⟨.refl state, rfl⟩

theorem trans (first : AddsUnaliased permitted state later)
    (second : AddsUnaliased permitted later final) : AddsUnaliased permitted state final :=
  ⟨first.toAdds.trans second.toAdds, second.aliases.trans first.aliases⟩

theorem of_file {file : Source.File} (preserved : state.file.Preserves file) :
    AddsUnaliased permitted state { state with file } :=
  ⟨.of_file preserved, rfl⟩

theorem notice (line : Option Nat) {finding : Finding} (allowed : permitted finding) :
    AddsUnaliased permitted state (state.notice line finding) :=
  ⟨.notice line allowed, rfl⟩

theorem noteOverflow (exceeds : Bool) : AddsUnaliased permitted state (state.noteOverflow exceeds) :=
  ⟨.of_same rfl rfl (State.noteOverflow_kept exceeds), rfl⟩

theorem foldl {α : Type} {step : State → α → State} {items : List α}
    (each : ∀ item ∈ items, ∀ current, AddsUnaliased permitted current (step current item)) :
    AddsUnaliased permitted state (items.foldl step state) := by
  induction items generalizing state with
  | nil => exact .refl state
  | cons item rest inductionHypothesis =>
      have first := each item List.mem_cons_self state
      exact first.trans (inductionHypothesis fun other member =>
        each other (List.mem_cons_of_mem _ member))

end AddsUnaliased

namespace State

section Undertakings

-- Whatever says nothing of the depth of lambdas is permitted.
variable {permitted : Finding → Prop} {setting : Setting} {state : State}
  {source : Source.Handle .method} {compiled : Compiled.Handle .method}
  (usual : ∀ finding, finding ≠ .deepLambda → permitted finding)

include usual

/-! ### Single matches and groups -/

theorem record_adds (own : Source.Ref) (other : Compiled.Ref) :
    AddsUnaliased permitted state (state.record setting own other) where
  preserved := .of_relinked (record_relinked setting state own other)
    (record_extends setting state own other).links
  notices := by
    cases accepted : state.accepts own other with
    | true =>
        rw [record_of_accepts accepted]
        exact fun _ => .inl
    | false =>
        rw [record_of_rejected accepted]
        have fresh := usual (.alreadyMatched own.kind.element (state.file.label own)
          (setting.pool.elementId other)) (by simp)
        exact (Adds.notice _ fresh).notices
  overflow := by rw [record_overflow]; exact id
  aliases := record_aliases setting state own other

theorem pairGroup_adds (group : String) (pairs : List (Source.Ref × Compiled.Ref)) :
    AddsUnaliased permitted state (state.pairGroup setting group pairs) := by
  unfold pairGroup
  dsimp only
  split
  · exact .notice _ (usual _ (by simp))
  · exact .foldl fun pair _ current => record_adds usual pair.1 pair.2

/-! ### Bodies -/

theorem matchVariable_adds (pair : Source.Handle .variable × Compiled.Handle .variable) :
    Adds permitted state (state.matchVariable setting pair) := by
  have matched := (@record_adds permitted setting state usual pair.1 pair.2).toAdds
  unfold matchVariable
  dsimp only
  split
  · exact matched.trans (.addAlias _ _)
  · exact matched

theorem matchVariables_adds :
    Adds permitted state (state.matchVariables setting source compiled) :=
  .foldl fun pair _ _ _ => matchVariable_adds usual pair

theorem matchCallOnLine_adds (key : CallKey)
    (onLine : Option Nat × List (Source.Handle .invocation)) :
    AddsUnaliased permitted state (state.matchCallOnLine setting compiled key onLine) := by
  unfold matchCallOnLine
  split
  · split
    · exact record_adds usual _ _
    · exact .refl state
  · exact .refl state

theorem matchCallsByLine_adds (key : CallKey) (sources : List (Source.Handle .invocation)) :
    AddsUnaliased permitted state (state.matchCallsByLine setting compiled key sources) :=
  .foldl fun onLine _ _ => matchCallOnLine_adds usual key onLine

theorem settleRegrouped_adds (group : CallKey × List (Source.Handle .invocation)) :
    AddsUnaliased permitted state (state.settleRegrouped setting compiled group) := by
  unfold settleRegrouped
  dsimp only
  split
  · exact pairGroup_adds usual _ _
  · refine AddsUnaliased.trans ?_ (matchCallsByLine_adds usual _ _)
    exact .notice _ (usual _ (by simp))

theorem settleCalls_adds (group : CallKey × List (Source.Handle .invocation)) :
    AddsUnaliased permitted state (state.settleCalls setting compiled group) :=
  (AddsUnaliased.noteOverflow _).trans (settleRegrouped_adds usual group)

theorem matchCalls_adds :
    AddsUnaliased permitted state (state.matchCalls setting source compiled) := by
  unfold matchCalls
  dsimp only
  refine AddsUnaliased.trans (.foldl fun group _ current => ?_) (.foldl fun group _ current => ?_)
  · exact pairGroup_adds usual _ _
  · exact settleCalls_adds usual group

omit usual in
theorem aliasCallBases_adds :
    Adds permitted state (state.aliasCallBases setting source compiled) := by
  refine .foldl fun call _ current _ => ?_
  unfold aliasCallBase
  split
  · split
    · exact .addAlias _ _
    · exact .refl current
  · exact .refl current

theorem matchAllocationOnLine_adds (sources : List (Source.Handle .allocation))
    (candidates : List (Compiled.Handle .allocation)) (allocation : Source.Handle .allocation) :
    AddsUnaliased permitted state
      (state.matchAllocationOnLine setting sources candidates allocation) := by
  unfold matchAllocationOnLine
  split
  · exact .refl state
  · dsimp only
    split
    · split
      · exact record_adds usual _ _
      · exact .refl state
    · exact .refl state

theorem matchAllocationGroup_adds (candidates : Grouping String (Compiled.Handle .allocation))
    (group : String × List (Source.Handle .allocation)) :
    AddsUnaliased permitted state (state.matchAllocationGroup setting candidates group) := by
  unfold matchAllocationGroup
  dsimp only
  split
  · exact pairGroup_adds usual _ _
  · have lined (noted : State) : AddsUnaliased permitted noted
        (if setting.options.lossy then
          group.2.foldl (matchAllocationOnLine setting group.2 (candidates.members group.1)) noted
        else noted) := by
      split
      · exact .foldl fun allocation _ current => matchAllocationOnLine_adds usual _ _ allocation
      · exact .refl noted
    refine AddsUnaliased.trans ?_ (lined _)
    split
    · exact .refl state
    · exact .notice _ (usual _ (by simp))

theorem matchAccessesOfKind_adds (name : String) (sources : List (Source.Handle .fieldAccess))
    (candidates : List (Compiled.Handle .fieldAccess)) (kind : AccessKind) :
    AddsUnaliased permitted state
      (state.matchAccessesOfKind setting name sources candidates kind) := by
  unfold matchAccessesOfKind
  dsimp only
  split
  · exact .refl state
  · split
    · exact pairGroup_adds usual _ _
    · exact .notice _ (usual _ (by simp))

theorem matchAccessGroup_adds (candidates : Grouping String (Compiled.Handle .fieldAccess))
    (group : String × List (Source.Handle .fieldAccess)) :
    AddsUnaliased permitted state (state.matchAccessGroup setting candidates group) := by
  unfold matchAccessGroup
  dsimp only
  split
  · split
    · exact .notice _ (usual _ (by simp))
    · exact pairGroup_adds usual _ _
  · exact .foldl fun kind _ current => matchAccessesOfKind_adds usual _ _ _ kind

theorem matchCasts_adds :
    AddsUnaliased permitted state (state.matchCasts setting source compiled) := by
  unfold matchCasts
  dsimp only
  split
  · exact .refl state
  · split
    · exact pairGroup_adds usual _ _
    · exact .notice _ (usual _ (by simp))

theorem matchReferenceGroup_adds (candidates : Grouping String (Compiled.Handle .methodRef))
    (group : String × List (Source.Handle .methodRef)) :
    AddsUnaliased permitted state (state.matchReferenceGroup setting candidates group) := by
  unfold matchReferenceGroup
  dsimp only
  split
  · exact pairGroup_adds usual _ _
  · exact .notice _ (usual _ (by simp))

/-- Only variables and the bases of calls are found to stand for slots. -/
theorem runPass_addsUnaliased (pass : BodyPass) (noVariables : pass ≠ .vars)
    (noCalls : pass ≠ .calls) :
    AddsUnaliased permitted state (pass.run setting source compiled state) := by
  cases pass with
  | vars => exact absurd rfl noVariables
  | calls => exact absurd rfl noCalls
  | allocations => exact .foldl fun group _ current => matchAllocationGroup_adds usual _ group
  | accesses => exact .foldl fun group _ current => matchAccessGroup_adds usual _ group
  | casts => exact matchCasts_adds usual
  | references => exact .foldl fun group _ current => matchReferenceGroup_adds usual _ group

/-- A pass over the statements of two bodies. -/
theorem runPass_adds (pass : BodyPass) :
    Adds permitted state (pass.run setting source compiled state) := by
  cases pass with
  | vars => exact matchVariables_adds usual
  | calls =>
      exact (matchCalls_adds usual).toAdds.trans aliasCallBases_adds
  | allocations => exact (runPass_addsUnaliased usual .allocations nofun nofun).toAdds
  | accesses => exact (runPass_addsUnaliased usual .accesses nofun nofun).toAdds
  | casts => exact (runPass_addsUnaliased usual .casts nofun nofun).toAdds
  | references => exact (runPass_addsUnaliased usual .references nofun nofun).toAdds

theorem matchStatements_adds :
    Adds permitted state (state.matchStatements setting source compiled) := by
  have remembered : Adds permitted state (state.addPair (source, compiled)) := .of_same rfl rfl id
  rw [matchStatements_eq]
  exact remembered.trans (.foldl fun pass _ current _ => runPass_adds usual pass)

/-! ### Lambdas -/

theorem matchLambda_adds
    {bodies : Source.Handle .method → Compiled.Handle .method → State → State}
    {lambda : Source.Handle .method} {place : Compiled.Handle .lambda}
    (enters : ∀ implementation current, Adds permitted state current →
      Adds permitted current (bodies lambda implementation current)) :
    Adds permitted state (state.matchLambda setting bodies (lambda, place)) := by
  unfold matchLambda
  dsimp only
  split
  · exact .notice _ (usual _ (by simp))
  · split
    · exact .notice _ (usual _ (by simp))
    · have matched (implementation : Compiled.Handle .method) :=
        (@record_adds permitted setting state usual lambda.ref implementation.ref).toAdds
      split
      · exact (matched _).trans (enters _ _ (matched _))
      · exact matched _

theorem matchLambdas_adds
    {bodies : Source.Handle .method → Compiled.Handle .method → State → State}
    (enters : ∀ lambda ∈ (state.file.methodAt source).lambdas, ∀ implementation current,
      Adds permitted state current →
        Adds permitted current (bodies lambda implementation current)) :
    Adds permitted state (state.matchLambdas setting bodies source compiled) := by
  unfold matchLambdas
  dsimp only
  split
  · refine .foldl fun pair member current reached => matchLambda_adds usual ?_
    exact fun implementation later moved =>
      enters pair.1 (List.of_mem_zip member).1 implementation later (reached.trans moved)
  · split
    · exact .refl state
    · exact .notice _ (usual _ (by simp))

/-- A method whose lambdas are nested within the limit is entered with a budget that is enough. -/
theorem matchBody_adds {limit : Nat}
    (room : permitted .deepLambda ∨ state.file.LambdasWithin limit source) :
    Adds permitted state (state.matchBody setting (limit + 1) source compiled) := by
  induction limit generalizing state source compiled with
  | zero =>
      have matched := @matchStatements_adds permitted setting state source compiled usual
      refine matched.trans (matchLambdas_adds usual fun lambda listed _ current _ => ?_)
      rcases room with allowed | alone
      · exact .notice _ allowed
      · have alone := (matched.extended.lambdasWithin 0 source).mpr alone
        rw [Source.File.LambdasWithin.eq_1] at alone
        rw [alone] at listed
        cases listed
  | succ limit inductionHypothesis =>
      have matched := @matchStatements_adds permitted setting state source compiled usual
      refine matched.trans (matchLambdas_adds usual fun lambda listed _ current reached => ?_)
      refine inductionHypothesis (room.imp_right fun within => ?_)
      have within := (matched.extended.lambdasWithin (limit + 1) source).mpr within
      exact (reached.extended.lambdasWithin limit lambda).mpr (within lambda listed)

/-! ### Members -/

variable {type : Source.Handle .type} {compiledType : Compiled.Handle .type}

theorem matchFieldsByName_adds {fields : List (Source.Handle .field)} :
    AddsUnaliased permitted state (fields.foldl (matchField setting compiledType) state) := by
  refine .foldl fun field _ current => ?_
  unfold matchField
  split
  · exact record_adds usual _ _
  · exact .refl current

theorem matchFields_adds :
    AddsUnaliased permitted state (state.matchFields setting type compiledType) := by
  refine (matchFieldsByName_adds usual).trans (.foldl fun field _ current => ?_)
  unfold standInForField
  split
  · exact .refl current
  · exact (AddsUnaliased.of_file (Source.File.preserves_pushField _ rfl)).trans
      (record_adds usual _ _)

theorem recordSome_adds {kind : Compiled.Kind} (own : Source.Ref)
    (counterpart : Option (Compiled.Handle kind)) :
    AddsUnaliased permitted state (state.recordSome setting own counterpart) := by
  unfold recordSome
  split
  · exact record_adds usual _ _
  · exact .refl state

theorem matchNamed_adds (candidates : Grouping String (Compiled.Handle .method))
    (group : String × List (Source.Handle .method)) :
    AddsUnaliased permitted state
      (state.matchNamed setting type compiledType candidates group) := by
  unfold matchNamed
  dsimp only
  split
  · split
    · exact .refl state
    · exact .notice _ (usual _ (by simp))
  · split
    · exact .refl state
    · exact record_adds usual _ _
  · split
    · exact .refl state
    · exact .foldl fun method _ current => recordSome_adds usual _ _

theorem noticeOpenMethod_adds (candidates : Grouping String (Compiled.Handle .method))
    (name : String) (method : Source.Handle .method) :
    AddsUnaliased permitted state (state.noticeOpenMethod type candidates name method) := by
  unfold noticeOpenMethod
  split
  · exact .refl state
  · refine .notice _ (usual _ ?_)
    split <;> simp

theorem matchMethods_adds :
    AddsUnaliased permitted state (state.matchMethods setting type compiledType) := by
  have unlessLinked (method : Source.Handle .method) (current matched : State)
      (moved : AddsUnaliased permitted current matched) :
      AddsUnaliased permitted current
        (if current.file.isLinked method then current else matched) := by
    split
    · exact .refl current
    · exact moved
  unfold matchMethods
  dsimp only
  refine ((AddsUnaliased.foldl ?byName).trans (.foldl ?bySignature)).trans
    ((AddsUnaliased.foldl ?byOuterTypes).trans (.foldl ?notices))
  case byName => exact fun group _ current => matchNamed_adds usual _ group
  case bySignature =>
    refine fun group _ current => .foldl fun method _ now => ?_
    exact unlessLinked _ _ _ (recordSome_adds usual _ _)
  case byOuterTypes =>
    exact fun method _ current => unlessLinked _ _ _ (recordSome_adds usual _ _)
  case notices =>
    exact fun group _ current => .foldl fun method _ now => noticeOpenMethod_adds usual _ _ method

/-! ### Types -/

theorem matchBodies_adds (room : permitted .deepLambda ∨ state.file.Shallow) :
    Adds permitted state (state.matchBodies setting type) := by
  have cleared : Adds permitted state { state with pairs := [] } := .of_same rfl rfl id
  refine cleared.trans (.foldl fun method listed current reached => ?_)
  unfold matchMethodBody
  split
  · refine matchBody_adds usual (room.imp_right fun shallow => ?_)
    exact (reached.extended.lambdasWithin _ _).mpr (shallow type method listed)
  · exact .refl current

theorem matchOuterThis_adds (pair : MethodPair) :
    AddsUnaliased permitted state (state.matchOuterThis setting pair) := by
  refine .foldl fun access _ current => ?_
  unfold matchOuterThisAccess
  split
  · exact record_adds usual _ _
  · exact .refl current

theorem matchReflectiveArrays_adds (pair : MethodPair) :
    AddsUnaliased permitted state (state.matchReflectiveArrays setting pair) := by
  unfold matchReflectiveArrays
  dsimp only
  split
  · exact pairGroup_adds usual _ _
  · exact .refl state

theorem standInForSites_adds (pair : MethodPair) :
    AddsUnaliased permitted state (state.standInForSites setting pair) := by
  refine AddsUnaliased.trans (.foldl fun call _ current => ?_)
    (.foldl fun allocation _ current => ?_)
  · unfold standInForCall
    dsimp only
    split
    · split
      · exact .refl current
      · exact (AddsUnaliased.of_file (Source.File.preserves_pushInvocation _ rfl)).trans
          (record_adds usual _ _)
    · exact .refl current
  · unfold standInForAllocation
    dsimp only
    split
    · split
      · exact .refl current
      · exact (AddsUnaliased.of_file (Source.File.preserves_pushAllocation _ rfl)).trans
          (record_adds usual _ _)
    · exact .refl current

omit usual in
theorem forPairs_adds (step : State → MethodPair → State)
    (each : ∀ pair current, AddsUnaliased permitted current (step current pair)) :
    AddsUnaliased permitted state (state.forPairs step) :=
  .foldl fun pair _ current => each pair current

omit usual in
/-- Names that are used in a linked type are resolved. -/
theorem resolveUsages_preserves (pool : Compiled.Pool) (record : Compiled.TypeDecl)
    {usages : List (Source.Handle .typeUsage)} {file : Source.File}
    (listed : ∀ usage ∈ usages, usage ∈ (file.typeAt type).typeUsages)
    (linked : file.isLinked type.ref = true) :
    file.Preserves (usages.foldl (resolveUsageIn pool record) file) := by
  induction usages generalizing file with
  | nil => exact .refl file
  | cons usage rest inductionHypothesis =>
      have first : file.Preserves (resolveUsageIn pool record file usage) := by
        unfold resolveUsageIn
        split
        · next name denoted =>
          exact Source.File.preserves_resolveUsage (listed usage List.mem_cons_self) linked name
        · exact .refl file
      rw [List.foldl_cons]
      generalize resolveUsageIn pool record file usage = next at first ⊢
      refine first.trans (inductionHypothesis (fun other member => ?_) (first.isLinked linked))
      rw [first.typeUsages]
      exact listed other (List.mem_cons_of_mem _ member)

theorem matchMembers_adds (linked : state.file.isLinked type.ref = true)
    (room : permitted .deepLambda ∨ state.file.Shallow) :
    Adds permitted state (state.matchMembers setting type compiledType) := by
  let named := (state.matchFields setting type compiledType).matchMethods setting type compiledType
  have methods : Adds permitted state named :=
    ((matchFields_adds usual).trans (matchMethods_adds usual)).toAdds
  have bodies : Adds permitted named (named.matchBodies setting type) :=
    matchBodies_adds usual (room.imp_right methods.extended.shallow)
  have outerThis := (methods.trans bodies).trans
    (forPairs_adds (matchOuterThis setting) fun pair _ => matchOuterThis_adds usual pair).toAdds
  have arrays := outerThis.trans (forPairs_adds (matchReflectiveArrays setting)
    fun pair _ => matchReflectiveArrays_adds usual pair).toAdds
  have standIns := arrays.trans
    (forPairs_adds (standInForSites setting) fun pair _ => standInForSites_adds usual pair).toAdds
  have usages := resolveUsages_preserves setting.pool (setting.pool.typeAt compiledType)
    (fun _ => id) (standIns.extended.isLinked linked)
  exact standIns.trans (.of_file usages)

theorem matchType_adds (room : permitted .deepLambda ∨ state.file.Shallow) :
    Adds permitted state (state.matchType setting type) := by
  unfold matchType
  dsimp only
  split
  · have matched (other : Compiled.Handle .type) :=
      (@record_adds permitted setting state usual type.ref other.ref).toAdds
    split
    · next accepted =>
      refine (matched _).trans
        (matchMembers_adds usual ?_ (room.imp_right (matched _).extended.shallow))
      exact Source.File.isLinked_of_link ((link_record accepted type.ref).trans (if_pos rfl))
    · exact matched _
  · exact .refl state

/-- Where a message about deeply nested lambdas is permitted, or there are none, nothing but what is
permitted is noted of a file. -/
theorem matchTypes_adds (room : permitted .deepLambda ∨ state.file.Shallow) :
    Adds permitted state (state.matchTypes setting) :=
  .foldl fun _ _ _ reached => matchType_adds usual (room.imp_right reached.extended.shallow)

end Undertakings

end State

end Correlate.Matching
