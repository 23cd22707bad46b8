/-
Module: Correlate.Proofs.Matching.Bodies
Purpose: What matching the statements of two bodies comes to.
Main exports: BodyPass, BodyPass.Settled, BodyPass.foldl_run_links, File.Untouched,
  State.matchStatements_links
-/
import Correlate.Proofs.Matching.Accesses
import Correlate.Proofs.Matching.Allocations
import Correlate.Proofs.Matching.Calls
import Correlate.Proofs.Matching.References
import Correlate.Proofs.Matching.Steps

namespace Correlate.Source.File

/-- Nothing in the body of a method is linked, its lambdas included. -/
def Untouched (file : File) (method : Handle .method) : Prop :=
  ∀ element, file.owningMethod? element = some method → file.isLinked element = false

end Correlate.Source.File

namespace Correlate.Matching

/-!
The statements of two bodies are matched in passes, one for each kind of element.  No pass touches
what the others match, so every pass finds its elements open.
-/

/-- A pass over the statements of two bodies. -/
inductive BodyPass where
  | vars
  | calls
  | allocations
  | accesses
  | casts
  | references
deriving DecidableEq, Repr

namespace BodyPass

def all : List BodyPass :=
  [.vars, .calls, .allocations, .accesses, .casts, .references]

/-- The kind of source element that a pass matches. -/
def kind : BodyPass → Source.Kind
  | .vars => .variable
  | .calls => .invocation
  | .allocations => .allocation
  | .accesses => .fieldAccess
  | .casts => .cast
  | .references => .methodRef

/-- The kind of compiled element that a pass matches. -/
def compiledKind : BodyPass → Compiled.Kind
  | .vars => .variable
  | .calls => .invocation
  | .allocations => .allocation
  | .accesses => .fieldAccess
  | .casts => .cast
  | .references => .methodRef

variable (setting : Setting) (source : Source.Handle .method) (compiled : Compiled.Handle .method)

/-- What a pass does. -/
def run (state : State) : BodyPass → State
  | .vars => state.matchVariables setting source compiled
  | .calls =>
      (state.matchCalls setting source compiled).aliasCallBases setting source compiled
  | .allocations => state.matchAllocations setting source compiled
  | .accesses => state.matchFieldAccesses setting source compiled
  | .casts => state.matchCasts setting source compiled
  | .references => state.matchReferences setting source compiled

/-- What a pass brings the elements that a file lists for a method to. -/
def Settled (file : Source.File) (state : State) : BodyPass → Prop
  | .vars => ∀ pair ∈ ({ file } : State).variablePairs setting source compiled,
      state.file.link? pair.1.ref = some ⟨pair.2.ref, setting.pool.elementId pair.2.ref⟩
  | .calls => ∀ key, GroupSettled setting state (State.callsTo file source key)
      (State.compiledCallsTo setting.pool compiled key)
  | .allocations => ∀ key, State.AllocationsSettled setting state file source compiled key
  | .accesses => ∀ name, State.AccessesSettled setting state file source compiled name
  | .casts => GroupSettled setting state (file.methodAt source).casts
      (setting.pool.methodAt compiled).casts
  | .references => ∀ name, GroupSettled setting state (State.referencesTo file source name)
      (State.compiledReferencesTo setting.pool compiled name)

/-- The elements of a pass are open on both sides. -/
def Open (file : Source.File) (state : State) (pass : BodyPass) : Prop :=
  (∀ own, own.kind = pass.kind → file.owningMethod? own = some source →
    state.file.isLinked own = false) ∧
  ∀ other, other.kind = pass.compiledKind → setting.pool.owningMethod? other = some compiled →
    state.isConsumed other = false

variable {setting source compiled} {file later : Source.File} {state : State} {pass : BodyPass}

theorem settled_relinked (same : file.Relinked later) :
    pass.Settled setting source compiled later state ↔
      pass.Settled setting source compiled file state := by
  obtain ⟨_, rfl⟩ := same
  cases pass <;> exact Iff.rfl

/-- A pass whose elements are open settles them and matches nothing else. -/
theorem run_links (formed : state.file.WellFormed) (poolFormed : setting.pool.WellFormed)
    (clear : pass.Open setting source compiled state.file state) :
    let final := pass.run setting source compiled state
    LinkSteps setting
        (FitsOfKind setting state.file source compiled pass.kind pass.compiledKind) state final ∧
      pass.Settled setting source compiled state.file final := by
  have unlinked (part : Source.Part) (isKind : part.kind = pass.kind) {i : Nat}
      (listed : i ∈ part.list (state.file.methodAt source)) :
      state.file.isLinked ⟨part.kind, i⟩ = false :=
    clear.1 _ isKind (formed.owner_of_listed part listed).2
  have opened (part : Compiled.Part) (isKind : part.kind = pass.compiledKind) {i : Nat}
      (listed : i ∈ part.list (setting.pool.methodAt compiled)) :
      state.isConsumed ⟨part.kind, i⟩ = false :=
    clear.2 _ isKind (poolFormed.owningMethod_of_listed part listed)
  cases pass with
  | vars =>
      refine State.matchVariables_links formed poolFormed (fun own member => ?_) fun other member =>
        opened .slot rfl (List.mem_map_of_mem member)
      rcases List.mem_append.mp member with isReceiver | isParam
      · exact unlinked .receiver rfl (List.mem_map_of_mem isReceiver)
      · exact unlinked .parameter rfl (List.mem_map_of_mem isParam)
  | calls =>
      obtain ⟨steps, settled⟩ := State.matchCalls_links formed poolFormed
        (fun own member => unlinked .invocation rfl (List.mem_map_of_mem member))
        fun other member => opened .invocation rfl (List.mem_map_of_mem member)
      exact ⟨steps.trans State.aliasCallBases_links,
        fun key => (settled key).lasting
          (@State.aliasCallBases_links setting _ source compiled anyMatch)⟩
  | allocations =>
      exact State.matchAllocations_links formed poolFormed
        (fun own member => unlinked .allocation rfl (List.mem_map_of_mem member))
        fun other member => opened .allocation rfl (List.mem_map_of_mem member)
  | accesses =>
      exact State.matchFieldAccesses_links formed poolFormed
        (fun own member => unlinked .fieldAccess rfl (List.mem_map_of_mem member))
        fun other member => opened .fieldAccess rfl (List.mem_map_of_mem member)
  | casts =>
      exact State.matchCasts_links formed poolFormed
        (fun own member => unlinked .cast rfl (List.mem_map_of_mem member))
        fun other member => opened .cast rfl (List.mem_map_of_mem member)
  | references =>
      exact State.matchReferences_links formed poolFormed
        (fun own member => unlinked .methodRef rfl (List.mem_map_of_mem member))
        fun other member => opened .methodRef rfl (List.mem_map_of_mem member)

/-- What a pass settles stays settled. -/
theorem settled_grow {current : State} (formed : file.WellFormed)
    (extended : file.Extends state.file) (grown : state.Grows current)
    (settled : pass.Settled setting source compiled file state) :
    pass.Settled setting source compiled file current := by
  have known (part : Source.Part) {i : Nat} (listed : i ∈ part.list (file.methodAt source)) :
      i < state.file.count part.kind :=
    Nat.lt_of_lt_of_le (formed.owner_of_listed part listed).1 (extended.count_le part.kind)
  have knownCall {own : Source.Handle .invocation}
      (listed : own ∈ (file.methodAt source).invocations) :
      own.index < state.file.count .invocation := known .invocation (List.mem_map_of_mem listed)
  have knownAllocation {own : Source.Handle .allocation}
      (listed : own ∈ (file.methodAt source).allocations) :
      own.index < state.file.count .allocation := known .allocation (List.mem_map_of_mem listed)
  have knownAccess {own : Source.Handle .fieldAccess}
      (listed : own ∈ (file.methodAt source).fieldAccesses) :
      own.index < state.file.count .fieldAccess := known .fieldAccess (List.mem_map_of_mem listed)
  have knownReference {own : Source.Handle .methodRef}
      (listed : own ∈ (file.methodAt source).methodRefs) :
      own.index < state.file.count .methodRef := known .methodRef (List.mem_map_of_mem listed)
  cases pass with
  | vars => exact fun pair member => grown.extended.links _ _ (settled pair member)
  | calls =>
      exact fun key => (settled key).grow grown fun own member =>
        knownCall (List.mem_of_mem_filter member)
  | allocations =>
      refine fun key => ⟨(settled key).1.grow grown fun own member => ?_, fun own member few => ?_⟩
      · exact knownAllocation (List.mem_of_mem_filter member)
      · exact grown.settled ((settled key).2 own member few)
  | accesses =>
      refine fun name => ⟨fun agree => ((settled name).1 agree).grow grown fun own member => ?_,
        fun own member => grown.settled ((settled name).2 own member)⟩
      exact knownAccess (List.mem_of_mem_filter (List.mem_of_mem_filter member))
  | casts =>
      exact settled.grow grown fun own member => known .cast (List.mem_map_of_mem member)
  | references =>
      exact fun name => (settled name).grow grown fun own member =>
        knownReference (List.mem_of_mem_filter member)

/-! ### Several passes -/

/-- A well-formed file stays so when elements of it are matched. -/
theorem wellFormed_of_links {permitted : Source.Ref → Compiled.Ref → Prop} {current : State}
    (formed : state.file.WellFormed) (steps : LinkSteps setting permitted state current)
    (known : ∀ own other, permitted own other → own.index < state.file.count own.kind) :
    current.file.WellFormed := by
  apply formed.relinked steps.gains.relinked
  intro element linked
  obtain ⟨link, found⟩ := Source.File.exists_link linked
  rcases steps.gains.link_new element link found with old | permission
  · exact formed.linked element (Source.File.isLinked_of_link old)
  · exact known _ _ permission

/-- The elements of a pass stay open while others are matched. -/
theorem Open.after {permitted : Source.Ref → Compiled.Ref → Prop} {current : State}
    (clear : pass.Open setting source compiled state.file state)
    (steps : LinkSteps setting permitted state current)
    (apart : ∀ own other, permitted own other →
      own.kind ≠ pass.kind ∧ other.kind ≠ pass.compiledKind) :
    pass.Open setting source compiled current.file current := by
  constructor
  · intro own isKind owned
    rw [steps.gains.relinked.owningMethod] at owned
    exact steps.unlinked (clear.1 own isKind owned) fun other permission =>
      (apart own other permission).1 isKind
  · intro other isKind owned
    exact steps.opened (clear.2 other isKind owned) fun own permission =>
      (apart own other permission).2 isKind

/-- Passes over different elements, all of them open: every pass settles its own. -/
theorem foldl_run_links {passes : List BodyPass}
    (apart : passes.Pairwise fun pass next =>
      pass.kind ≠ next.kind ∧ pass.compiledKind ≠ next.compiledKind)
    (formed : state.file.WellFormed) (poolFormed : setting.pool.WellFormed)
    (clear : ∀ pass ∈ passes, pass.Open setting source compiled state.file state) :
    let final := passes.foldl (BodyPass.run setting source compiled) state
    LinkSteps setting (fun own other => ∃ pass ∈ passes,
        FitsOfKind setting state.file source compiled pass.kind pass.compiledKind own other)
        state final ∧
      ∀ pass ∈ passes, pass.Settled setting source compiled state.file final := by
  have pass := @foldl_links _ setting state (BodyPass.run setting source compiled)
    (fun pass => FitsOfKind setting state.file source compiled pass.kind pass.compiledKind)
    (fun pass current => state.file.Relinked current.file ∧ current.file.WellFormed ∧
      pass.Open setting source compiled current.file current)
    (fun pass current => state.file.Extends current.file ∧
      pass.Settled setting source compiled state.file current) passes
  obtain ⟨steps, ends⟩ := by
    refine pass ?advance ?kept ?lasting ?ready
    case ready => exact fun pass member => ⟨.refl _, formed, clear pass member⟩
    case advance =>
      rintro pass _ current steps ⟨same, currentFormed, currentOpen⟩
      obtain ⟨passSteps, settled⟩ := BodyPass.run_links currentFormed poolFormed currentOpen
      refine ⟨passSteps.mono ?_, steps.gains.grows.extended.trans passSteps.gains.grows.extended,
        (BodyPass.settled_relinked same).mp settled⟩
      intro own other fits
      exact ⟨fits.1, fits.2.1, fits.2.2.of_relinked same⟩
    case kept =>
      apply apart.imp
      rintro pass next different current later steps ⟨same, currentFormed, currentOpen⟩
      refine ⟨same.trans steps.gains.relinked, wellFormed_of_links currentFormed steps ?_,
        currentOpen.after steps ?_⟩
      · intro own other fits
        rw [same.count]
        exact (fits.2.2.owner formed).1
      · rintro own other ⟨isKind, isCompiledKind, _⟩
        rw [isKind, isCompiledKind]
        exact different
    case lasting =>
      exact fun pass _ current later steps done => ⟨done.1.trans steps.gains.grows.extended,
        BodyPass.settled_grow formed done.1 steps.gains.grows done.2⟩
  exact ⟨steps, fun pass member => (ends pass member).2⟩

end BodyPass

namespace State

variable {setting : Setting} {state : State} {source : Source.Handle .method}
  {compiled : Compiled.Handle .method}

theorem matchStatements_eq : state.matchStatements setting source compiled =
    BodyPass.all.foldl (BodyPass.run setting source compiled)
      (state.addPair (source, compiled)) := by
  simp only [matchStatements, BodyPass.all, List.foldl_cons, List.foldl_nil, BodyPass.run]

/-- Two untouched bodies: every pass settles its elements. -/
theorem matchStatements_links (formed : state.file.WellFormed)
    (poolFormed : setting.pool.WellFormed) (untouched : state.file.Untouched source)
    (opened : ∀ other, setting.pool.owningMethod? other = some compiled →
      state.isConsumed other = false) :
    let final := state.matchStatements setting source compiled
    LinkSteps setting (StatementFits setting state.file source compiled)
        (state.addPair (source, compiled)) final ∧
      ∀ pass : BodyPass, pass.Settled setting source compiled state.file final := by
  obtain ⟨steps, settled⟩ := @BodyPass.foldl_run_links setting source compiled
    (state.addPair (source, compiled)) BodyPass.all (by decide) formed poolFormed
    fun pass _ => ⟨fun own _ => untouched own, fun other _ => opened other⟩
  rw [matchStatements_eq]
  refine ⟨steps.mono fun own other permission => ?_, fun pass => settled pass ?_⟩
  · obtain ⟨_, _, _, _, fits⟩ := permission
    exact fits
  · cases pass <;> decide

end State

end Correlate.Matching
