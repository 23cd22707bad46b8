/-
Module: Correlate.Proofs.Matching.Tries
Purpose: The matches that are tried for the methods of a type, from any state.
Main exports: Tries, Pending, Served, Serves, foldl_serves, State.matchMethods_eq
-/
import Correlate.Proofs.Matching.Fit
import Correlate.Proofs.Matching.Members

namespace Correlate.Matching

/-!
`LinkSteps` are matches of elements that are known to be open.  Here nothing is known of the state, so
a match may be tried in vain.  What is followed instead are methods with their counterparts: `Pending`
says that each of them has its counterpart or may still get it.  Tries that never part a method from
its counterpart keep that.
-/

/-- A match is tried, or something is noted. -/
inductive TryStep (setting : Setting) (permitted : Source.Ref → Compiled.Ref → Prop) :
    State → State → Prop where
  | record {state : State} {own : Source.Ref} {other : Compiled.Ref} (allowed : permitted own other) :
      TryStep setting permitted state (state.record setting own other)
  | note {state : State} (line : Option Nat) (finding : Finding) :
      TryStep setting permitted state (state.notice line finding)

/-- Tries one after the other, with the matches that are permitted. -/
abbrev Tries (setting : Setting) (permitted : Source.Ref → Compiled.Ref → Prop) :
    State → State → Prop :=
  Relation.ReflTransGen (TryStep setting permitted)

namespace Tries

variable {setting : Setting} {permitted : Source.Ref → Compiled.Ref → Prop} {state later : State}

theorem mono {allowed : Source.Ref → Compiled.Ref → Prop}
    (weaker : ∀ own other, permitted own other → allowed own other)
    (tries : Tries setting permitted state later) : Tries setting allowed state later := by
  refine Relation.ReflTransGen.mono (fun _ _ step => ?_) _ _ tries
  cases step with
  | record permission => exact .record (weaker _ _ permission)
  | note line finding => exact .note line finding

theorem any (tries : Tries setting permitted state later) : Tries setting anyMatch state later :=
  tries.mono fun _ _ _ => trivial

theorem relinked (tries : Tries setting permitted state later) :
    state.file.Relinked later.file := by
  induction tries with
  | refl => exact .refl state.file
  | tail _ step inductionHypothesis =>
      cases step with
      | record => exact inductionHypothesis.trans (State.record_relinked setting _ _ _)
      | note => exact inductionHypothesis

theorem extended (tries : Tries setting permitted state later) : state.file.Extends later.file := by
  induction tries with
  | refl => exact .refl state.file
  | tail _ step inductionHypothesis =>
      cases step with
      | record => exact inductionHypothesis.trans (State.record_extends setting _ _ _)
      | note => exact inductionHypothesis

theorem foldl {γ : Type} {step : State → γ → State} {items : List γ}
    (each : ∀ item ∈ items, ∀ current, state.file.Relinked current.file →
      Tries setting permitted current (step current item)) :
    Tries setting permitted state (items.foldl step state) := by
  induction items generalizing state with
  | nil => exact .refl
  | cons item rest inductionHypothesis =>
      have first := each item List.mem_cons_self state (.refl state.file)
      refine first.trans (inductionHypothesis fun next member current same => ?_)
      exact each next (List.mem_cons_of_mem _ member) current (first.relinked.trans same)

/-- A match of an element that is linked already is tried in vain. -/
theorem record_of_linked {own : Source.Ref} (linked : state.file.isLinked own = true)
    (other : Compiled.Ref) : Tries setting permitted state (state.record setting own other) := by
  have rejected : state.accepts own other = false := by
    rw [Bool.eq_false_iff]
    intro accepted
    exact absurd ((State.accepts_iff.mp accepted).2.symm.trans linked) Bool.false_ne_true
  rw [State.record_of_rejected rejected]
  exact .single (.note _ _)

end Tries

/-! ### Methods and their counterparts -/

section Pending

variable {setting : Setting} {image : Source.Handle .method → Compiled.Handle .method}
  {awaited : Set (Source.Handle .method)} {state later final : State}

/-- Each of the methods is matched with its counterpart, or both are open. -/
def Pending (image : Source.Handle .method → Compiled.Handle .method)
    (awaited : Set (Source.Handle .method)) (state : State) : Prop :=
  ∀ own ∈ awaited, state.file.linkedMethod? own = some (image own) ∨
    state.accepts own.ref (image own).ref = true

/-- The method has its counterpart, if it is one of those that are awaited. -/
def Served (image : Source.Handle .method → Compiled.Handle .method)
    (awaited : Set (Source.Handle .method)) (own : Source.Handle .method) (state : State) : Prop :=
  own ∈ awaited → state.file.linkedMethod? own = some (image own)

theorem Served.mono {own : Source.Handle .method} (served : Served image awaited own state)
    (extended : state.file.Extends later.file) : Served image awaited own later :=
  fun awaits => extended.linkedMethod (served awaits)

/-- The match parts no method from its counterpart. -/
def InKeeping (image : Source.Handle .method → Compiled.Handle .method)
    (awaited : Set (Source.Handle .method)) (own : Source.Ref) (other : Compiled.Ref) : Prop :=
  ∀ method ∈ awaited, own = method.ref ↔ other = (image method).ref

namespace Pending

/-- What is linked is linked to its counterpart. -/
theorem served (pending : Pending image awaited state) {own : Source.Handle .method}
    (linked : state.file.isLinked own.ref = true) : Served image awaited own state := by
  intro member
  apply (pending own member).resolve_right
  intro accepted
  exact absurd ((State.accepts_iff.mp accepted).2.symm.trans linked) Bool.false_ne_true

/-- A method that is not linked may be matched with its counterpart. -/
theorem accepts (pending : Pending image awaited state) {own : Source.Handle .method}
    (member : own ∈ awaited) (unlinked : state.file.isLinked own.ref = false) :
    state.accepts own.ref (image own).ref = true :=
  (pending own member).resolve_left (Source.File.not_linkedMethod_of_unlinked unlinked)

theorem record (pending : Pending image awaited state) {own : Source.Ref} {other : Compiled.Ref}
    (keeping : InKeeping image awaited own other) :
    Pending image awaited (state.record setting own other) := by
  cases accepted : state.accepts own other with
  | false =>
      rw [State.record_of_rejected accepted]
      exact pending
  | true =>
      intro method member
      by_cases same : own = method.ref
      · obtain rfl := (keeping method member).mp same
        have found := @State.link_record setting _ _ _ accepted method.ref
        rw [if_pos same] at found
        exact .inl (Source.File.linkedMethod_iff.mpr ⟨_, found⟩)
      · rcases pending method member with matched | opened
        · exact .inl ((State.record_extends setting state own other).linkedMethod matched)
        · obtain ⟨untaken, unlinked⟩ := State.accepts_iff.mp opened
          refine .inr (State.accepts_iff.mpr ⟨?_, ?_⟩)
          · rw [Bool.eq_false_iff]
            intro taken
            rcases (State.isConsumed_record accepted _).mp taken with isOther | before
            · exact same ((keeping method member).mpr isOther)
            · exact absurd (untaken.symm.trans before) Bool.false_ne_true
          · rw [Source.File.isLinked, State.link_record accepted, if_neg same]
            exact unlinked

theorem tries (pending : Pending image awaited state)
    (kept : Tries setting (InKeeping image awaited) state later) : Pending image awaited later := by
  induction kept with
  | refl => exact pending
  | tail _ step inductionHypothesis =>
      cases step with
      | record keeping => exact inductionHypothesis.record keeping
      | note => exact inductionHypothesis

end Pending

/-- Tries after which methods and counterparts that were open for each other still are, unless they are
matched. -/
structure Serves (setting : Setting) (image : Source.Handle .method → Compiled.Handle .method)
    (awaited : Set (Source.Handle .method)) (state later : State) : Prop where
  tries : Tries setting anyMatch state later
  pending : Pending image awaited state → Pending image awaited later

namespace Serves

theorem refl (state : State) : Serves setting image awaited state state :=
  ⟨.refl, id⟩

theorem trans (first : Serves setting image awaited state later)
    (second : Serves setting image awaited later final) :
    Serves setting image awaited state final :=
  ⟨first.tries.trans second.tries, second.pending ∘ first.pending⟩

theorem of_tries {permitted : Source.Ref → Compiled.Ref → Prop}
    (tries : Tries setting permitted state later)
    (keeping : ∀ own other, permitted own other → InKeeping image awaited own other) :
    Serves setting image awaited state later :=
  ⟨tries.any, fun pending => pending.tries (tries.mono keeping)⟩

end Serves

/-- A pass whose items keep what is pending, and bring each item to an end that lasts. -/
theorem foldl_serves {γ : Type} {step : State → γ → State} {done : γ → State → Prop}
    (items : List γ) (pending : Pending image awaited state)
    (advance : ∀ item ∈ items, ∀ current, Tries setting anyMatch state current →
      Pending image awaited current →
        Serves setting image awaited current (step current item) ∧ done item (step current item))
    (lasting : ∀ item current later, current.file.Extends later.file → done item current →
      done item later) :
    Serves setting image awaited state (items.foldl step state) ∧
      ∀ item ∈ items, done item (items.foldl step state) := by
  refine @foldl_stages _ _ state step (fun _ => Serves setting image awaited)
    (Serves setting image awaited) (fun _ _ => True) done .refl .trans items (fun _ _ _ _ => id)
    ?advance (List.pairwise_of_forall fun _ _ _ _ _ _ _ => trivial) ?lasting fun _ _ => trivial
  case advance =>
    intro item member current reached _
    exact advance item member current reached.tries (reached.pending pending)
  case lasting =>
    intro item _ current later _ moves
    exact lasting item current later moves.tries.extended

end Pending

/-! ### The stages of matching methods -/

/-- The source methods that share their names with compiled methods. -/
def sharedNames (pool : Compiled.Pool) (file : Source.File) (type : Source.Handle .type)
    (compiledType : Compiled.Handle .type) : Grouping String (Source.Handle .method) :=
  (methodsByName file type).filter fun (name, _) =>
    !((compiledMethodsByName pool compiledType).members name).isEmpty

namespace State

variable {setting : Setting} {state : State} {type : Source.Handle .type}
  {compiledType : Compiled.Handle .type}

/-- Match all methods by name. -/
def matchByName (setting : Setting) (type : Source.Handle .type)
    (compiledType : Compiled.Handle .type) (state : State) : State :=
  (methodsByName state.file type).foldl
    (matchNamed setting type compiledType (compiledMethodsByName setting.pool compiledType)) state

/-- Match the methods of groups that are still open by what their signatures may denote. -/
def matchBySignatures (setting : Setting) (type : Source.Handle .type)
    (compiledType : Compiled.Handle .type) (groups : Grouping String (Source.Handle .method))
    (state : State) : State :=
  groups.foldl (fun state (_, methods) =>
    methods.foldl (matchBySignature setting type compiledType) state) state

/-- Match the constructors of inner types that are still open. -/
def matchInnerConstructors (setting : Setting) (compiledType : Compiled.Handle .type)
    (methods : List (Source.Handle .method)) (state : State) : State :=
  methods.foldl (matchInnerConstructor setting compiledType
    ((compiledMethodsByName setting.pool compiledType).members ReservedName.constructor)) state

/-- Note why methods of groups stay open. -/
def noticeOpenMethods (setting : Setting) (type : Source.Handle .type)
    (compiledType : Compiled.Handle .type) (groups : Grouping String (Source.Handle .method))
    (state : State) : State :=
  groups.foldl (fun state (name, methods) => methods.foldl
    (noticeOpenMethod type (compiledMethodsByName setting.pool compiledType) name) state) state

/-- Methods are matched in four stages. -/
theorem matchMethods_eq (setting : Setting) (type : Source.Handle .type)
    (compiledType : Compiled.Handle .type) (state : State) :
    let shared := sharedNames setting.pool state.file type compiledType
    let constructors := (methodsByName state.file type).members ReservedName.constructor
    state.matchMethods setting type compiledType =
      (((state.matchByName setting type compiledType).matchBySignatures setting type compiledType
        shared).matchInnerConstructors setting compiledType constructors).noticeOpenMethods setting
          type compiledType shared :=
  rfl

/-! #### What each stage tries -/

variable {permitted : Source.Ref → Compiled.Ref → Prop}

theorem recordSome_tries {own : Source.Handle .method}
    {counterpart : Option (Compiled.Handle .method)}
    (chosen : ∀ other, counterpart = some other → permitted own.ref other.ref) :
    Tries setting permitted state (state.recordSome setting own counterpart) := by
  cases counterpart with
  | none => exact .refl
  | some other => exact .single (.record (chosen other rfl))

theorem matchNamed_tries {compiled : Grouping String (Compiled.Handle .method)} {name : String}
    {methods : List (Source.Handle .method)} :
    Tries setting (Between methods (compiled.members name)) state
      (state.matchNamed setting type compiledType compiled (name, methods)) := by
  unfold matchNamed
  dsimp only
  split
  · split
    · exact .refl
    · exact .single (.note _ _)
  · next only candidate single =>
    split
    · exact .refl
    · refine .single (.record ⟨only, List.mem_singleton_self only, candidate, ?_, rfl, rfl⟩)
      rw [single]
      exact List.mem_singleton_self candidate
  · split
    · exact .refl
    · refine .foldl fun method member current _ => recordSome_tries fun other found => ?_
      exact ⟨method, member, other, (overloadCounterpart_open found).1, rfl, rfl⟩

/-- The compiled method is one that the signature of the source method denotes. -/
def Denotes (setting : Setting) (file : Source.File) (type : Source.Handle .type)
    (compiledType : Compiled.Handle .type) (methods : List (Source.Handle .method))
    (own : Source.Ref) (other : Compiled.Ref) : Prop :=
  ∃ a ∈ methods, ∃ c ∈ (setting.pool.typeAt compiledType).methods,
    own = a.ref ∧ other = c.ref ∧ (setting.pool.methodAt c).id ∈ file.signatureIds type a

theorem matchBySignatures_tries {groups : Grouping String (Source.Handle .method)} :
    Tries setting (fun own other => ∃ group ∈ groups,
        Denotes setting state.file type compiledType group.2 own other) state
      (state.matchBySignatures setting type compiledType groups) := by
  refine .foldl fun group isGroup current before => .foldl fun method member next same => ?_
  unfold matchBySignature
  split
  · exact .refl
  · apply recordSome_tries
    intro other found
    obtain ⟨listed, _, denoted⟩ := signatureCounterpart_open found
    refine ⟨group, isGroup, method, member, other, listed, rfl, rfl, ?_⟩
    rw [← (before.trans same).signatureIds]
    exact denoted

theorem matchInnerConstructors_tries {methods : List (Source.Handle .method)} :
    Tries setting anyMatch state
      (state.matchInnerConstructors setting compiledType methods) := by
  refine .foldl fun method _ current _ => ?_
  unfold matchInnerConstructor
  split
  · exact .refl
  · exact recordSome_tries fun _ _ => trivial

theorem noticeOpenMethods_tries {groups : Grouping String (Source.Handle .method)} :
    Tries setting permitted state
      (state.noticeOpenMethods setting type compiledType groups) := by
  refine .foldl fun group _ current _ => .foldl fun method _ next _ => ?_
  unfold noticeOpenMethod
  split
  · exact .refl
  · exact .single (.note _ _)

/-- What is matched by name stays matched. -/
theorem matchMethods_tries : Tries setting anyMatch (state.matchByName setting type compiledType)
    (state.matchMethods setting type compiledType) := by
  rw [matchMethods_eq]
  exact matchBySignatures_tries.any.trans
    (matchInnerConstructors_tries.trans noticeOpenMethods_tries)

end State

end Correlate.Matching
