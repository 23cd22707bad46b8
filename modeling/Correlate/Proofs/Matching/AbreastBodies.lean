/-
Module: Correlate.Proofs.Matching.AbreastBodies
Purpose: A strict and a lossy run match the bodies of the methods of a type.
Main exports: Together, Together.matchStatements, Together.matchLambdas, Together.matchBody,
  Together.matchMethodBodies
-/
import Correlate.Proofs.Matching.Abreast
import Correlate.Proofs.Matching.Exploration

namespace Correlate.Matching

/-!
Which bodies are entered depends on the links of methods and on what is taken of compiled methods, and in
these the two runs agree.  So they enter the same bodies in the same order, each while nothing in it is
matched.  They differ in what they make of the allocations in a body, and nowhere else.
-/

/-! ### One run -/

namespace State.Sound

variable {setting : Setting} {done : List Source.File} {state : State}
  {source : Source.Handle .method} {compiled : Compiled.Handle .method}

/-- Once the variables and the calls of two untouched bodies are matched, the allocations are still
open. -/
theorem allocations_open (sound : state.Sound setting done)
    (linked : state.file.linkedMethod? source = some compiled)
    (untouched : state.file.Untouched source) :
    let later := [BodyPass.vars, .calls].foldl (BodyPass.run setting source compiled)
      (state.addPair (source, compiled))
    later.file.WellFormed ∧
      (∀ own ∈ (state.file.methodAt source).allocations, later.file.isLinked own.ref = false) ∧
      ∀ other ∈ (setting.pool.methodAt compiled).allocations, later.isConsumed other.ref = false := by
  have formed := sound.current.formed
  have apart {own : Source.Ref} {other : Compiled.Ref} (permitted : ∃ pass ∈ [BodyPass.vars, .calls],
      FitsOfKind setting state.file source compiled pass.kind pass.compiledKind own other) :
      own.kind ≠ .allocation ∧ other.kind ≠ .allocation := by
    obtain ⟨pass, member, isKind, isCompiledKind, _⟩ := permitted
    rw [isKind, isCompiledKind]
    rcases (List.mem_cons.mp member).imp_right List.mem_singleton.mp with rfl | rfl <;>
      exact ⟨nofun, nofun⟩
  obtain ⟨steps, _⟩ := @BodyPass.foldl_run_links setting source compiled
    (state.addPair (source, compiled)) [.vars, .calls] (by decide) formed sound.pool
    fun pass _ => ⟨fun own _ => untouched own, fun other _ => sound.opened linked untouched⟩
  refine ⟨@BodyPass.wellFormed_of_links setting (state.addPair (source, compiled)) _ _ formed steps
    ?known, fun own listed => ?_, fun other listed => ?_⟩
  case known =>
    rintro own other ⟨_, _, _, _, fits⟩
    exact (fits.owner formed).1
  · have owned := (formed.owner_of_listed .allocation (List.mem_map_of_mem listed)).2
    exact steps.unlinked (untouched own.ref owned) fun _ permitted => (apart permitted).1 rfl
  · have owned := sound.pool.owningMethod_of_listed .allocation (List.mem_map_of_mem listed)
    exact steps.opened (sound.opened linked untouched owned) fun _ permitted =>
      (apart permitted).2 rfl

/-- Matching the statements of a method leaves the bodies of the other methods alone. -/
theorem matchStatements (sound : state.Sound setting done)
    (linked : state.file.linkedMethod? source = some compiled)
    (untouched : state.file.Untouched source) :
    let later := state.matchStatements setting source compiled
    later.Sound setting done ∧ state.Grows later ∧
      later.pairs = state.pairs ++ [(source, compiled)] ∧
      ∀ method, method ≠ source → state.file.Untouched method → later.file.Untouched method := by
  have formed := sound.current.formed
  obtain ⟨links, _⟩ := State.matchStatements_links formed sound.pool untouched
    fun other => sound.opened linked untouched
  have steps := (@Pass.statements setting state (source, compiled) linked untouched).steps sound
  refine ⟨steps.sound sound, steps.grows sound, links.gains.pairs, ?_⟩
  intro method different clear element owned
  rw [links.gains.relinked.owningMethod] at owned
  apply links.unlinked (clear element owned)
  intro other fits
  exact different (Option.some.inj (owned.symm.trans (fits.owner formed).2))

end State.Sound

/-- Matching what is inside a method leaves the bodies of the other methods alone. -/
theorem State.untouched_record_of_owned {setting : Setting} {state : State} {own : Source.Ref}
    {other : Compiled.Ref} {method owner : Source.Handle .method}
    (untouched : state.file.Untouched method) (owned : state.file.owningMethod? own = some owner)
    (different : method ≠ owner) : (state.record setting own other).file.Untouched method := by
  intro element elementOwned
  rw [(record_relinked setting state own other).owningMethod] at elementOwned
  apply unlinked_record _ (untouched element elementOwned)
  rintro rfl
  exact different (Option.some.inj (elementOwned.symm.trans owned))

/-! ### Statements -/

section Statements

variable {setting : Setting} {i : Nat} {pool : Compiled.Pool} {file : Source.File}
  {here : Source.Handle .method → Prop} {fresh : Compiled.Handle .method → Prop}
  {strict lossy : State} {source : Source.Handle .method} {compiled : Compiled.Handle .method}

/-- What a method lists is common, unless it is an allocation. -/
theorem Common.of_listed (formed : file.WellFormed) (part : Source.Part)
    (noAllocation : part.kind ≠ .allocation) {place : Nat}
    (listed : place ∈ part.list (file.methodAt source)) : Common file here ⟨part.kind, place⟩ := by
  refine .of_kind (formed.owner_of_listed part listed).1 noAllocation ?_
  cases part <;> nofun

/-- What a fresh compiled method lists is shared, unless it is an allocation. -/
theorem Shared.of_listed (poolFormed : pool.WellFormed) (part : Compiled.Part)
    (noAllocation : part.kind ≠ .allocation) (isFresh : fresh compiled) {place : Nat}
    (listed : place ∈ part.list (pool.methodAt compiled)) : Shared pool fresh ⟨part.kind, place⟩ :=
  ⟨noAllocation, fun _ => ⟨compiled, poolFormed.owningMethod_of_listed part listed, isFresh⟩⟩

/-- A pass over two bodies that leaves the allocations alone is done alike. -/
theorem Abreast.runPass (now : Abreast setting.pool file here fresh strict lossy)
    (formed : file.WellFormed) (poolFormed : setting.pool.WellFormed) (known : Common file here source)
    (isFresh : fresh compiled) {pass : BodyPass} (noAllocations : pass ≠ .allocations) :
    Abreast setting.pool file here fresh (pass.run setting source compiled strict)
      (pass.run (setting.varied i true) source compiled lossy) := by
  have steps := lockstep setting i file here fresh
  have same := now.strictMethods source (known.2.2 source rfl)
  have common (part : Source.Part) (noAllocation : part.kind ≠ .allocation) {place : Nat}
      (listed : place ∈ part.list (strict.file.methodAt source)) :
      Common file here ⟨part.kind, place⟩ :=
    .of_listed formed part noAllocation (same ▸ listed)
  have shared (part : Compiled.Part) (noAllocation : part.kind ≠ .allocation) {place : Nat}
      (listed : place ∈ part.list (setting.pool.methodAt compiled)) :
      Shared setting.pool fresh ⟨part.kind, place⟩ :=
    .of_listed poolFormed part noAllocation isFresh listed
  cases pass with
  | vars =>
      refine steps.matchVariables known now (fun held listed => ?_) fun slot listed =>
        shared .slot nofun (List.mem_map_of_mem listed)
      rcases List.mem_append.mp listed with isReceiver | isParam
      · exact common .receiver nofun (List.mem_map_of_mem isReceiver)
      · exact common .parameter nofun (List.mem_map_of_mem isParam)
  | calls =>
      refine steps.aliasCallBases known (steps.matchCalls known ?_ now fun call listed =>
        common .invocation nofun (List.mem_map_of_mem listed))
      exact fun call listed => shared .invocation nofun (List.mem_map_of_mem listed)
  | allocations => exact absurd rfl noAllocations
  | accesses =>
      refine steps.matchFieldAccesses known ?_ now fun access listed =>
        common .fieldAccess nofun (List.mem_map_of_mem listed)
      exact fun access listed => shared .fieldAccess nofun (List.mem_map_of_mem listed)
  | casts =>
      exact steps.matchCasts known now
        (fun conversion listed => common .cast nofun (List.mem_map_of_mem listed))
        fun conversion listed => shared .cast nofun (List.mem_map_of_mem listed)
  | references =>
      exact steps.matchReferences known now
        (fun reference listed => common .methodRef nofun (List.mem_map_of_mem listed))
        fun reference listed => shared .methodRef nofun (List.mem_map_of_mem listed)

end Statements

/-! ### Bodies -/

/-- A method of the file that is not matched before the methods of the type are. -/
def Unmatched (file : Source.File) (entry : State) (method : Source.Handle .method) : Prop :=
  method.index < file.methods.size ∧ entry.file.isLinked method.ref = false

theorem Unmatched.common {file : Source.File} {entry : State} {source : Source.Handle .method}
    (unmatched : Unmatched file entry source) : Common file (Unmatched file entry) source.ref := by
  refine ⟨unmatched.1, nofun, fun method same => ?_⟩
  obtain rfl := ref_injective same
  exact unmatched

/-- A compiled method that is not taken before the methods of the type are matched. -/
def Untaken (entry : State) (compiled : Compiled.Handle .method) : Prop :=
  entry.isConsumed compiled.ref = false

/-- A strict and a lossy run are at the same place among the bodies of a type, which they have entered
in the given state.  Nothing in the bodies that are not reached yet is matched.  The bodies of some
declared methods are known to come later on. -/
structure Together (setting : Setting) (i : Nat) (done lossyDone : List Source.File)
    (file : Source.File) (entry : State) (waiting : Source.Handle .method → Prop)
    (strict lossy : State) : Prop where
  abreast : Abreast setting.pool file (Unmatched file entry) (Untaken entry) strict lossy
  strictSound : strict.Sound setting done
  lossySound : lossy.Sound (setting.varied i true) lossyDone
  grown : entry.Grows strict
  entered : ∀ pair ∈ strict.pairs, Unmatched file entry pair.1
  apart : (strict.pairs.map Prod.fst).Nodup
  waits : ∀ method, waiting method → method ∉ strict.pairs.map Prod.fst
  clear : ∀ method, Unmatched file entry method → method ∉ strict.pairs.map Prod.fst →
    strict.file.Untouched method ∧ lossy.file.Untouched method

/-- Two ways to match bodies that keep two runs together, where a method is entered for the first
time.  What is remembered stays so. -/
def KeepTogether (setting : Setting) (i : Nat) (done lossyDone : List Source.File)
    (file : Source.File) (entry : State) (waiting : Source.Handle .method → Prop)
    (bodies lossyBodies : Source.Handle .method → Compiled.Handle .method → State → State) : Prop :=
  ∀ {source compiled strict lossy},
    Together setting i done lossyDone file entry waiting strict lossy →
    strict.file.linkedMethod? source = some compiled → Unmatched file entry source →
    source ∉ strict.pairs.map Prod.fst → ¬ waiting source →
    Together setting i done lossyDone file entry waiting (bodies source compiled strict)
        (lossyBodies source compiled lossy) ∧
      strict.pairs ⊆ (bodies source compiled strict).pairs

namespace Together

variable {setting : Setting} {i : Nat} {done lossyDone : List Source.File} {file : Source.File}
  {entry : State} {waiting : Source.Handle .method → Prop} {strict lossy : State}
  {source : Source.Handle .method} {compiled : Compiled.Handle .method}
  {bodies lossyBodies : Source.Handle .method → Compiled.Handle .method → State → State}

/-- Fewer bodies may be known to come later on. -/
theorem weaken {fewer : Source.Handle .method → Prop}
    (now : Together setting i done lossyDone file entry waiting strict lossy)
    (less : ∀ method, fewer method → waiting method) :
    Together setting i done lossyDone file entry fewer strict lossy :=
  { now with waits := fun method isWaiting => now.waits method (less method isWaiting) }

theorem notice (now : Together setting i done lossyDone file entry waiting strict lossy)
    (line otherLine : Option Nat) (finding otherFinding : Finding) :
    Together setting i done lossyDone file entry waiting (strict.notice line finding)
      (lossy.notice otherLine otherFinding) :=
  { now with
    abreast := now.abreast.notice line otherLine finding otherFinding
    strictSound := now.strictSound.of_same rfl rfl now.strictSound.pairs
    lossySound := now.lossySound.of_same rfl rfl now.lossySound.pairs
    grown := ⟨now.grown.extended, now.grown.consumed, fun noted member =>
      Array.mem_push.mpr (.inl (now.grown.notices noted member)), now.grown.overflow⟩ }

theorem lossyLinked (now : Together setting i done lossyDone file entry waiting strict lossy)
    (unmatched : Unmatched file entry source) :
    lossy.file.linkedMethod? source = strict.file.linkedMethod? source := by
  unfold Source.File.linkedMethod?
  rw [now.abreast.links source.ref unmatched.1 nofun]

/-- A method may be matched in both runs, or in none. -/
theorem accepts (now : Together setting i done lossyDone file entry waiting strict lossy)
    (unmatched : Unmatched file entry source) (compiled : Compiled.Handle .method) :
    strict.accepts source.ref compiled.ref = lossy.accepts source.ref compiled.ref :=
  have known : source.ref.index < file.count source.ref.kind := unmatched.1
  now.abreast.accepts known nofun (.of_kind nofun nofun)

section Entry

variable (entrySound : entry.Sound setting done)

include entrySound

/-- What a method gets linked to was open before. -/
theorem untaken (now : Together setting i done lossyDone file entry waiting strict lossy)
    (unmatched : Unmatched file entry source)
    (linked : strict.file.linkedMethod? source = some compiled) : Untaken entry compiled := by
  obtain ⟨_, found⟩ := Source.File.linkedMethod_iff.mp linked
  exact entrySound.open_before now.strictSound now.grown unmatched.2 found

variable (formed : file.WellFormed)

include formed

/-- The statements of two bodies that are entered. -/
theorem matchStatements (isStrict : setting.options.lossy = false)
    (now : Together setting i done lossyDone file entry waiting strict lossy)
    (linked : strict.file.linkedMethod? source = some compiled)
    (unmatched : Unmatched file entry source) (isNew : source ∉ strict.pairs.map Prod.fst)
    (notWaiting : ¬ waiting source) :
    Together setting i done lossyDone file entry waiting
      (strict.matchStatements setting source compiled)
      (lossy.matchStatements (setting.varied i true) source compiled) := by
  have poolFormed := now.strictSound.pool
  have isFresh := now.untaken entrySound unmatched linked
  have lossyLinked := (now.lossyLinked unmatched).trans linked
  obtain ⟨strictClear, lossyClear⟩ := now.clear source unmatched isNew
  obtain ⟨strictSound, strictGrown, strictPairs, strictKept⟩ :=
    now.strictSound.matchStatements linked strictClear
  obtain ⟨lossySound, _, _, lossyKept⟩ := now.lossySound.matchStatements lossyLinked lossyClear
  obtain ⟨strictFormed, strictUnlinked, strictOpen⟩ :=
    now.strictSound.allocations_open linked strictClear
  obtain ⟨lossyFormed, lossyUnlinked, lossyOpen⟩ :=
    now.lossySound.allocations_open lossyLinked lossyClear
  simp only [List.foldl_cons, List.foldl_nil] at strictFormed strictUnlinked strictOpen
  simp only [List.foldl_cons, List.foldl_nil] at lossyFormed lossyUnlinked lossyOpen
  rw [now.abreast.strictMethods source unmatched] at strictUnlinked
  rw [now.abreast.lossyMethods source unmatched] at lossyUnlinked
  constructor
  case strictSound => exact strictSound
  case lossySound => exact lossySound
  case grown => exact now.grown.trans strictGrown
  case entered =>
    intro pair member
    rw [strictPairs] at member
    rcases (List.mem_append.mp member).imp_right List.mem_singleton.mp with before | rfl
    · exact now.entered pair before
    · exact unmatched
  case apart =>
    rw [strictPairs, List.map_append]
    exact now.apart.append (List.nodup_singleton _) (List.disjoint_singleton.mpr isNew)
  case waits =>
    intro method isWaiting member
    rw [strictPairs, List.map_append] at member
    rcases (List.mem_append.mp member).imp_right List.mem_singleton.mp with before | rfl
    · exact now.waits method isWaiting before
    · exact notWaiting isWaiting
  case clear =>
    intro method methodUnmatched absent
    rw [strictPairs, List.map_append, List.mem_append, not_or] at absent
    obtain ⟨strictBefore, lossyBefore⟩ := now.clear method methodUnmatched absent.1
    have different : method ≠ source := fun same => absent.2 (List.mem_singleton.mpr same)
    exact ⟨strictKept method different strictBefore, lossyKept method different lossyBefore⟩
  case abreast =>
    have run {one two : State} (current : Abreast setting.pool file (Unmatched file entry)
        (Untaken entry) one two) {pass : BodyPass} (noAllocations : pass ≠ .allocations) :=
      current.runPass (i := i) formed poolFormed unmatched.common isFresh noAllocations
    have called := run (run (now.abreast.addPair (source, compiled))
      (by decide : BodyPass.vars ≠ .allocations)) (by decide : BodyPass.calls ≠ .allocations)
    have created := called.matchAllocations (i := i) isStrict formed poolFormed strictFormed
      lossyFormed unmatched strictUnlinked lossyUnlinked strictOpen lossyOpen
    rw [State.matchStatements_eq, State.matchStatements_eq]
    simp only [BodyPass.all, List.foldl_cons, List.foldl_nil]
    exact run (run (run created (by decide : BodyPass.accesses ≠ .allocations))
      (by decide : BodyPass.casts ≠ .allocations)) (by decide : BodyPass.references ≠ .allocations)

/-! ### Lambdas -/

/-- A lambda of a method that is not matched before is not matched before either. -/
theorem unmatched_lambda (now : Together setting i done lossyDone file entry waiting strict lossy)
    (unmatched : Unmatched file entry source) {lambda : Source.Handle .method}
    (listed : lambda ∈ (file.methodAt source).lambdas) : Unmatched file entry lambda := by
  obtain ⟨known, inside⟩ := formed.mem_lambdas.mp listed
  refine ⟨known, entrySound.untouched_of_unlinked unmatched.2 lambda.ref ?_⟩
  show (entry.file.methodAt lambda).parent = some source
  rw [← now.grown.extended.methodParent, now.abreast.strictExtends.methodParent]
  exact inside

/-- A lambda of a method that is entered is matched with the method that implements it. -/
theorem recordLambda {lambda : Source.Handle .method} {place : Compiled.Handle .lambda}
    {implementation : Compiled.Handle .method}
    (now : Together setting i done lossyDone file entry waiting strict lossy)
    (member : (source, compiled) ∈ strict.pairs) (listed : lambda ∈ (file.methodAt source).lambdas)
    (placed : place ∈ (setting.pool.methodAt compiled).lambdas)
    (implemented : (setting.pool.lambdaAt place).implementation = some implementation)
    (room : (file.methodAt lambda).arity ≤ (setting.pool.methodAt implementation).arity)
    (accepted : strict.accepts lambda.ref implementation.ref = true) :
    Together setting i done lossyDone file entry waiting
      (strict.record setting lambda.ref implementation.ref)
      (lossy.record (setting.varied i true) lambda.ref implementation.ref) := by
  have entered := now.entered _ member
  have unmatched := now.unmatched_lambda entrySound formed entered listed
  have linked := now.strictSound.pairs _ member
  have owned := (formed.mem_lambdas.mp listed).2
  have shared : Shared setting.pool (Untaken entry) implementation.ref := .of_kind nofun nofun
  have lossyAccepted := (now.accepts unmatched implementation).symm.trans accepted
  obtain ⟨strictSound, strictGrown⟩ := now.strictSound.record (.lambda linked
    (by rw [now.abreast.strictMethods _ entered]; exact listed) placed implemented
    (by rw [now.abreast.strictMethods _ unmatched]; exact room)) accepted
  obtain ⟨lossySound, _⟩ := now.lossySound.record (.lambda ((now.lossyLinked entered).trans linked)
    (by rw [now.abreast.lossyMethods _ entered]; exact listed) placed implemented
    (by rw [now.abreast.lossyMethods _ unmatched]; exact room)) lossyAccepted
  constructor
  case abreast => exact now.abreast.record unmatched.1 nofun shared
  case strictSound => exact strictSound
  case lossySound => exact lossySound
  case grown => exact now.grown.trans strictGrown
  case entered => rw [State.record_pairs]; exact now.entered
  case apart => rw [State.record_pairs]; exact now.apart
  case waits => rw [State.record_pairs]; exact now.waits
  case clear =>
    intro method methodUnmatched absent
    rw [State.record_pairs] at absent
    obtain ⟨strictClear, lossyClear⟩ := now.clear method methodUnmatched absent
    have different : method ≠ source := by
      rintro rfl
      exact absent (List.mem_map_of_mem (f := Prod.fst) member)
    constructor
    · have strictOwned := (now.abreast.strictExtends.methodParent lambda).trans owned
      exact State.untouched_record_of_owned strictClear strictOwned different
    · have lossyOwned := (now.abreast.lossyExtends.methodParent lambda).trans owned
      exact State.untouched_record_of_owned lossyClear lossyOwned different

variable (outermost : ∀ method, waiting method → (file.methodAt method).parent = none)

include outermost

/-- A lambda is matched and its body entered in both runs, or in none. -/
theorem matchLambda {lambda : Source.Handle .method} {place : Compiled.Handle .lambda}
    (bodiesTogether : KeepTogether setting i done lossyDone file entry waiting bodies lossyBodies)
    (now : Together setting i done lossyDone file entry waiting strict lossy)
    (member : (source, compiled) ∈ strict.pairs) (listed : lambda ∈ (file.methodAt source).lambdas)
    (placed : place ∈ (setting.pool.methodAt compiled).lambdas) :
    Together setting i done lossyDone file entry waiting
        (strict.matchLambda setting bodies (lambda, place))
        (lossy.matchLambda (setting.varied i true) lossyBodies (lambda, place)) ∧
      strict.pairs ⊆ (strict.matchLambda setting bodies (lambda, place)).pairs := by
  have unmatched := now.unmatched_lambda entrySound formed (now.entered _ member) listed
  unfold State.matchLambda
  dsimp only
  rw [now.abreast.strictMethods lambda unmatched, now.abreast.lossyMethods lambda unmatched]
  cases implemented : (setting.pool.lambdaAt place).implementation with
  | none => exact ⟨now.notice _ _ _ _, List.Subset.refl _⟩
  | some implementation =>
      dsimp only
      split
      · exact ⟨now.notice _ _ _ _, List.Subset.refl _⟩
      · next room =>
        rw [← now.accepts unmatched implementation]
        cases accepted : strict.accepts lambda.ref implementation.ref with
        | false =>
            have rejected := (now.accepts unmatched implementation).symm.trans accepted
            simp only [Bool.false_eq_true, if_false]
            rw [State.record_of_rejected accepted, State.record_of_rejected rejected]
            exact ⟨now.notice _ _ _ _, List.Subset.refl _⟩
        | true =>
            have recorded := now.recordLambda entrySound formed member listed placed implemented
              (Nat.le_of_not_lt room) accepted
            have isLinked := @State.link_record setting _ _ _ accepted lambda.ref
            have pairs := State.record_pairs setting strict lambda.ref implementation.ref
            simp only [if_true]
            rw [← pairs]
            refine bodiesTogether recorded
              (Source.File.linkedMethod_iff.mpr ⟨_, isLinked.trans (if_pos rfl)⟩) unmatched ?_ ?_
            · -- What is entered is linked, and the lambda was not.
              rw [pairs]
              intro before
              obtain ⟨pair, isPair, rfl⟩ := List.mem_map.mp before
              exact Source.File.not_linkedMethod_of_unlinked (State.accepts_iff.mp accepted).2
                (now.strictSound.pairs pair isPair)
            · intro isWaiting
              cases (outermost _ isWaiting).symm.trans (formed.mem_lambdas.mp listed).2

/-- The lambdas of a method that is entered, and the bodies of these. -/
theorem matchLambdas
    (bodiesTogether : KeepTogether setting i done lossyDone file entry waiting bodies lossyBodies)
    (now : Together setting i done lossyDone file entry waiting strict lossy)
    (member : (source, compiled) ∈ strict.pairs) :
    Together setting i done lossyDone file entry waiting
        (strict.matchLambdas setting bodies source compiled)
        (lossy.matchLambdas (setting.varied i true) lossyBodies source compiled) ∧
      strict.pairs ⊆ (strict.matchLambdas setting bodies source compiled).pairs := by
  have entered := now.entered _ member
  unfold State.matchLambdas
  rw [now.abreast.strictMethods source entered, now.abreast.lossyMethods source entered]
  dsimp only
  split
  · refine @foldl_tied _ (fun one two => Together setting i done lossyDone file entry waiting one two ∧
      strict.pairs ⊆ one.pairs) _ _ _ _ _ ⟨now, List.Subset.refl _⟩ ?_
    rintro ⟨lambda, place⟩ paired one two ⟨current, more⟩
    obtain ⟨listed, placed⟩ := List.of_mem_zip paired
    obtain ⟨next, further⟩ := current.matchLambda entrySound formed outermost bodiesTogether
      (more member) listed placed
    exact ⟨next, List.Subset.trans more further⟩
  · split
    · exact ⟨now, List.Subset.refl _⟩
    · exact ⟨now.notice _ _ _ _, List.Subset.refl _⟩

/-- Two bodies and the lambdas in them, however deeply these are nested. -/
theorem matchBody (isStrict : setting.options.lossy = false) (budget : Nat) :
    KeepTogether setting i done lossyDone file entry waiting (State.matchBody setting budget)
      (State.matchBody (setting.varied i true) budget) := by
  induction budget with
  | zero => exact fun now _ _ _ _ => ⟨now.notice _ _ _ _, List.Subset.refl _⟩
  | succ budget inductionHypothesis =>
      intro source compiled strict lossy now linked unmatched isNew notWaiting
      have statements := now.matchStatements entrySound formed isStrict linked unmatched isNew
        notWaiting
      obtain ⟨_, _, pairs, _⟩ :=
        now.strictSound.matchStatements linked (now.clear source unmatched isNew).1
      obtain ⟨lambdas, more⟩ := statements.matchLambdas entrySound formed outermost
        inductionHypothesis (by rw [pairs]; exact List.mem_append_right _ (List.mem_singleton_self _))
      refine ⟨lambdas, List.Subset.trans ?_ more⟩
      rw [pairs]
      exact List.subset_append_left _ _

omit outermost in
/-- The bodies of declared methods one after the other. -/
theorem matchMethodBodies (isStrict : setting.options.lossy = false)
    {methods : List (Source.Handle .method)} (nodup : methods.Nodup)
    (unmatched : ∀ method ∈ methods, Unmatched file entry method)
    (declared : ∀ method ∈ methods, (file.methodAt method).parent = none)
    (now : Together setting i done lossyDone file entry (· ∈ methods) strict lossy) :
    Together setting i done lossyDone file entry (fun _ => False)
      (methods.foldl (State.matchMethodBody setting) strict)
      (methods.foldl (State.matchMethodBody (setting.varied i true)) lossy) := by
  induction methods generalizing strict lossy with
  | nil => exact now.weaken fun _ => False.elim
  | cons method rest inductionHypothesis =>
      obtain ⟨isNew, restNodup⟩ := List.nodup_cons.mp nodup
      have others := now.weaken fun _ => List.mem_cons_of_mem method
      rw [List.foldl_cons, List.foldl_cons]
      apply inductionHypothesis restNodup
        (fun next member => unmatched next (List.mem_cons_of_mem _ member))
        (fun next member => declared next (List.mem_cons_of_mem _ member))
      unfold State.matchMethodBody
      rw [now.lossyLinked (unmatched method List.mem_cons_self)]
      cases linked : strict.file.linkedMethod? method with
      | none => exact others
      | some compiled =>
          exact (matchBody entrySound formed
            (fun next member => declared next (List.mem_cons_of_mem _ member)) isStrict _ others linked
            (unmatched method List.mem_cons_self) (now.waits method List.mem_cons_self) isNew).1

end Entry

end Together

end Correlate.Matching
