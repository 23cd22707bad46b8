/-
Module: Correlate.Proofs.Matching.Twins
Purpose: Two runs that match the same file and differ in what they have matched before.
Main exports: Pool.owningType?, Territory, Territory.ofTypes, Twins, Twins.record, Twins.lockstep
-/
import Correlate.Matching.Run
import Correlate.Proofs.Compiled.WellFormed
import Correlate.Proofs.Matching.Lockstep

namespace Correlate

namespace Compiled.Pool

/-- The type that a compiled element is, is a member of or is inside a method of. -/
def owningType? (pool : Pool) (element : Ref) : Option (Handle .type) :=
  match element with
  | ⟨.type, i⟩ => some ⟨i⟩
  | ⟨.field, i⟩ => some (pool.fieldAt ⟨i⟩).declaring
  | ⟨.method, i⟩ => some (pool.methodAt ⟨i⟩).declaring
  | _ => (pool.owningMethod? element).map fun method => (pool.methodAt method).declaring

theorem owningType_of_owningMethod {pool : Pool} {element : Ref} {method : Handle .method}
    (owned : pool.owningMethod? element = some method) :
    pool.owningType? element = some (pool.methodAt method).declaring := by
  obtain ⟨kind, i⟩ := element
  cases kind with
  | type | field | method => cases owned
  | _ =>
      rw [← Option.map_some (f := fun method => (pool.methodAt method).declaring), ← owned]
      rfl

/-- The methods that implement lambdas are declared by the types in which the lambdas are created. -/
def KeepsLambdas (pool : Pool) : Prop :=
  ∀ (place : Handle .lambda) (implementation : Handle .method),
    (pool.lambdaAt place).implementation = some implementation →
    (pool.methodAt implementation).declaring =
      (pool.methodAt (pool.lambdaAt place).method).declaring

instance (pool : Pool) : Decidable pool.KeepsLambdas :=
  decidable_of_iff (∀ i < pool.lambdas.size,
      ∀ implementation ∈ (pool.lambdaAt ⟨i⟩).implementation,
        (pool.methodAt implementation).declaring =
          (pool.methodAt (pool.lambdaAt ⟨i⟩).method).declaring) <| by
    constructor
    · rintro keeps ⟨i⟩ implementation implemented
      apply keeps i _ implementation implemented
      by_contra unknown
      rw [lambdaAt, Array.getElem?_eq_none (Nat.le_of_not_lt unknown)] at implemented
      cases implemented
    · exact fun keeps i _ => keeps ⟨i⟩

end Compiled.Pool

namespace Matching

/-!
A file is matched twice: after other files in one run, and alone in another one.  In its territory,
the compiled elements of the types it declares, the two runs find the same elements taken, and
nothing that matching the file reads or takes is outside.  So they do the same.
-/

/-- A part of a pool that nothing leads out of: it has with a type the members of the type, with a
method what is inside the method, and with lambdas the methods that implement them. -/
structure Territory (pool : Compiled.Pool) where
  has : Compiled.Ref → Prop
  fields : ∀ {type : Compiled.Handle .type}, has type →
    ∀ field ∈ (pool.typeAt type).fields, has field.ref
  methods : ∀ {type : Compiled.Handle .type}, has type →
    ∀ method ∈ (pool.typeAt type).methods, has method.ref
  parts : ∀ {method : Compiled.Handle .method}, has method → ∀ (part : Compiled.Part) {i : Nat},
    i ∈ part.list (pool.methodAt method) → has ⟨part.kind, i⟩
  implementations : ∀ {method : Compiled.Handle .method}, has method →
    ∀ place ∈ (pool.methodAt method).lambdas, ∀ {implementation : Compiled.Handle .method},
      (pool.lambdaAt place).implementation = some implementation → has implementation

/-- The territory of some types. -/
def Territory.ofTypes {pool : Compiled.Pool} (formed : pool.WellFormed) (keeps : pool.KeepsLambdas)
    (Chosen : Compiled.Handle .type → Prop) : Territory pool where
  has element := ∃ type, pool.owningType? element = some type ∧ Chosen type
  fields := by
    rintro type ⟨found, owned, chosen⟩ field listed
    obtain rfl := Option.some.inj owned
    exact ⟨type, congrArg some (formed.field_declaring listed), chosen⟩
  methods := by
    rintro type ⟨found, owned, chosen⟩ method listed
    obtain rfl := Option.some.inj owned
    exact ⟨type, congrArg some (formed.method_declaring listed), chosen⟩
  parts := by
    rintro method ⟨found, owned, chosen⟩ part i listed
    obtain rfl := Option.some.inj owned
    have inside := formed.owningMethod_of_listed part listed
    exact ⟨_, Compiled.Pool.owningType_of_owningMethod inside, chosen⟩
  implementations := by
    rintro method ⟨found, owned, chosen⟩ place listed implementation implemented
    obtain rfl := Option.some.inj owned
    have inside := formed.owningMethod_of_listed .lambda (List.mem_map_of_mem listed)
    have holder : (pool.lambdaAt place).method = method := Option.some.inj inside
    refine ⟨_, congrArg some (keeps place implementation implemented), ?_⟩
    rw [holder]
    exact chosen

/-- The setting of another file of the run. -/
abbrev Setting.numbered (setting : Setting) (i : Nat) : Setting :=
  { setting with fileIndex := i }

/-- Two runs are in the midst of the same file: one that started it in the state `first`, and one
that matches it alone.  They agree in the file and in what is taken of its territory; the first run
has its earlier notices in front, and has taken nothing else since. -/
structure Twins {pool : Compiled.Pool} (territory : Territory pool) (first state twin : State) :
    Prop where
  file : state.file = twin.file
  pairs : state.pairs = twin.pairs
  notices : state.notices = first.notices ++ twin.notices
  alike : ∀ element, territory.has element → state.isConsumed element = twin.isConsumed element
  confined : ∀ element, state.isConsumed element = true →
    first.isConsumed element = true ∨ territory.has element
  linked : ∀ own link, twin.file.link? own = some link → territory.has link.compiled
  entered : ∀ pair ∈ twin.pairs, territory.has pair.2.ref
  extended : first.file.Extends twin.file

namespace Twins

variable {setting : Setting} {i : Nat} {territory : Territory setting.pool}
  {first state twin : State}

/-! ### Reading -/

theorem linkedMethod (twins : Twins territory first state twin) {source : Source.Handle .method}
    {compiled : Compiled.Handle .method}
    (linked : twin.file.linkedMethod? source = some compiled) : territory.has compiled := by
  unfold Source.File.linkedMethod? at linked
  split at linked
  · next found =>
    obtain rfl := Option.some.inj linked
    exact twins.linked _ _ found
  · cases linked

theorem accepts (twins : Twins territory first state twin) (own : Source.Ref) {other : Compiled.Ref}
    (inside : territory.has other) : state.accepts own other = twin.accepts own other := by
  have alike := twins.alike other inside
  unfold State.isConsumed at alike
  rw [State.accepts, State.accepts, Registry.accepts, Registry.accepts, alike, twins.file]

/-! ### Changing -/

theorem notice (twins : Twins territory first state twin) (line : Option Nat) (finding : Finding) :
    Twins territory first (state.notice line finding) (twin.notice line finding) :=
  { twins with
    notices := by
      rw [State.notice, State.notice, twins.file, twins.notices]
      exact Array.push_append }

theorem addPair (twins : Twins territory first state twin) {pair : MethodPair}
    (inside : territory.has pair.2.ref) :
    Twins territory first (state.addPair pair) (twin.addPair pair) :=
  { twins with
    pairs := by rw [State.addPair, State.addPair, twins.pairs]
    entered := by
      intro other member
      rcases List.mem_append.mp member with before | last
      · exact twins.entered other before
      · rw [List.mem_singleton.mp last]
        exact inside }

theorem forgetPairs (twins : Twins territory first state twin) :
    Twins territory first { state with pairs := [] } { twin with pairs := [] } :=
  { twins with
    pairs := rfl
    entered := nofun }

/-- The file gains something else than links. -/
theorem withFile (twins : Twins territory first state twin) {file : Source.File}
    (extended : twin.file.Extends file) (links : file.links = twin.file.links) :
    Twins territory first { state with file } { twin with file } :=
  { twins with
    file := rfl
    linked := by
      intro own link found
      rw [Source.File.link?, links] at found
      exact twins.linked own link found
    extended := twins.extended.trans extended }

/-- A match with an element of the territory, whether or not it can be made. -/
theorem record (twins : Twins territory first state twin) (own : Source.Ref) {other : Compiled.Ref}
    (inside : territory.has other) :
    Twins territory first (state.record setting own other)
      (twin.record (setting.numbered i) own other) := by
  -- Either both runs make the match, or both note that it cannot be made.
  have same := twins.accepts own inside
  cases accepted : twin.accepts own other with
  | false =>
      rw [State.record_of_rejected accepted, State.record_of_rejected (same.trans accepted),
        State.noticeAt, State.noticeAt, twins.file]
      exact twins.notice _ _
  | true =>
      have stateConsumed := @State.isConsumed_record setting _ _ _ (same.trans accepted)
      have twinConsumed := @State.isConsumed_record (setting.numbered i) _ _ _ accepted
      have twinLink := @State.link_record (setting.numbered i) _ _ _ accepted
      have isTwin := @State.record_of_accepts (setting.numbered i) _ _ _ accepted
      have isState := @State.record_of_accepts setting _ _ _ (same.trans accepted)
      constructor
      case file => rw [isState, isTwin, twins.file]
      case pairs => rw [isState, isTwin]; exact twins.pairs
      case notices => rw [isState, isTwin]; exact twins.notices
      case alike =>
        intro element has
        rw [Bool.eq_iff_iff, stateConsumed, twinConsumed, twins.alike element has]
      case confined =>
        intro element taken
        rcases (stateConsumed element).mp taken with rfl | before
        · exact .inr inside
        · exact twins.confined element before
      case linked =>
        intro element link found
        rw [twinLink] at found
        split at found
        · obtain rfl := Option.some.inj found
          exact inside
        · exact twins.linked element link found
      case entered => rw [isTwin]; exact twins.entered
      case extended =>
        refine twins.extended.trans (.of_relinked (by rw [isTwin]; exact ⟨_, rfl⟩) ?_)
        intro element link found
        rw [twinLink, if_neg]
        · exact found
        · rintro rfl
          exact Source.File.not_link_of_unlinked (State.accepts_iff.mp accepted).2 found

/-- The two runs do the same in the territory. -/
theorem lockstep (setting : Setting) (i : Nat) (territory : Territory setting.pool)
    (first : State) : Lockstep setting i setting.options.lossy (fun _ => True) territory.has
      (Twins territory first) where
  agree twins := twins.file ▸ .refl _ _
  linked twins _ _ := by rw [twins.file]
  consumed twins := twins.alike
  notice twins := twins.notice
  aliased twins _ _ := { twins with }
  overflow twins _ _ := { twins with }
  record twins own _ _ inside := twins.record own inside

end Twins

end Matching

end Correlate
