/-
Module: Correlate.Proofs.Matching.Links
Purpose: Sequences of matches that leave the elements of a file alone.
Main exports: Exceeds, MayExceed, LinkStep, LinkSteps, LinkSteps.gains, foldl_links, pairGroup_links
-/
import Mathlib.Logic.Relation
import Correlate.Matching.State
import Correlate.Proofs.Source.Extension

namespace Correlate.Matching

/-!
The passes over bodies and members do four things: they match an element with an open one, they
note why they did not, they note aliases, and they note whether a number of arguments has no next
word.  Which matches a pass may make is a parameter of `LinkSteps`.  Passes go through groups of
elements one after the other; `foldl_links` says what holds after all groups when every group finds its
own elements untouched.
-/

/-! ### A single match -/

namespace State

variable {setting : Setting} {state : State} {own : Source.Ref} {other : Compiled.Ref}

theorem accepts_iff : state.accepts own other = true ↔
    state.isConsumed other = false ∧ state.file.isLinked own = false := by
  simp [State.accepts, Registry.accepts, State.isConsumed]

theorem rejected_of_consumed (taken : state.isConsumed other = true) :
    state.accepts own other = false := by
  rw [Bool.eq_false_iff]
  intro accepted
  rw [(accepts_iff.mp accepted).1] at taken
  cases taken

/-- An element without a link is only rejected by what is taken. -/
theorem consumed_of_rejected (unlinked : state.file.isLinked own = false)
    (rejected : state.accepts own other = false) : state.isConsumed other = true := by
  by_contra opened
  rw [accepts_iff.mpr ⟨Bool.eq_false_iff.mpr opened, unlinked⟩] at rejected
  cases rejected

/-- What a match changes. -/
theorem record_of_accepts (accepted : state.accepts own other = true) :
    state.record setting own other =
      { state with
        registry :=
          { consumed := state.registry.consumed.insert other
            log := state.registry.log.push
              ⟨other, setting.pool.elementId other, ⟨setting.fileIndex, own⟩⟩ }
        file :=
          { state.file with
            links := state.file.links.insert own ⟨other, setting.pool.elementId other⟩ } } := by
  obtain ⟨opened, unlinked⟩ := accepts_iff.mp accepted
  unfold State.isConsumed at opened
  simp [State.record, Registry.record?, opened, Source.File.setLink?, unlinked]

/-- What is left of a match where an element is matched already. -/
theorem record_of_rejected (rejected : state.accepts own other = false) :
    state.record setting own other =
      state.noticeAt own (.alreadyMatched own.kind.element (state.file.label own)
        (setting.pool.elementId other)) := by
  unfold State.accepts Registry.accepts at rejected
  unfold State.record Registry.record?
  cases taken : state.registry.isConsumed other with
  | true => rfl
  | false =>
      have linked : state.file.isLinked own = true := by simpa [taken] using rejected
      simp [Source.File.setLink?, linked]

theorem link_record (accepted : state.accepts own other = true) (element : Source.Ref) :
    (state.record setting own other).file.link? element =
      if own = element then some ⟨other, setting.pool.elementId other⟩
      else state.file.link? element := by
  rw [record_of_accepts accepted]
  simp [Source.File.link?, Std.TreeMap.getElem?_insert]

theorem isConsumed_record (accepted : state.accepts own other = true) (element : Compiled.Ref) :
    (state.record setting own other).isConsumed element = true ↔
      other = element ∨ state.isConsumed element = true := by
  rw [record_of_accepts accepted]
  simp [State.isConsumed, Registry.isConsumed, Std.TreeSet.contains_insert]

theorem record_relinked (setting : Setting) (state : State) (own : Source.Ref)
    (other : Compiled.Ref) : state.file.Relinked (state.record setting own other).file := by
  cases accepted : state.accepts own other with
  | true => rw [record_of_accepts accepted]; exact ⟨_, rfl⟩
  | false => rw [record_of_rejected accepted]; exact .refl _

theorem record_extends (setting : Setting) (state : State) (own : Source.Ref)
    (other : Compiled.Ref) : state.file.Extends (state.record setting own other).file := by
  cases accepted : state.accepts own other with
  | true =>
      refine .of_relinked (record_relinked setting state own other) fun element link found => ?_
      have different : own ≠ element := by
        rintro rfl
        exact Source.File.not_link_of_unlinked (accepts_iff.mp accepted).2 found
      rw [link_record accepted, if_neg different]
      exact found
  | false =>
      rw [record_of_rejected accepted]
      exact .refl _

/-- Matching an element links no other. -/
theorem unlinked_record {element : Source.Ref} (different : own ≠ element)
    (unlinked : state.file.isLinked element = false) :
    (state.record setting own other).file.isLinked element = false := by
  cases accepted : state.accepts own other with
  | false =>
      rw [record_of_rejected accepted]
      exact unlinked
  | true =>
      rw [Source.File.isLinked, link_record accepted, if_neg different]
      exact unlinked

@[simp]
theorem record_pairs (setting : Setting) (state : State) (own : Source.Ref)
    (other : Compiled.Ref) : (state.record setting own other).pairs = state.pairs := by
  cases accepted : state.accepts own other with
  | true => rw [record_of_accepts accepted]
  | false => rw [record_of_rejected accepted]; rfl

@[simp]
theorem record_aliases (setting : Setting) (state : State) (own : Source.Ref)
    (other : Compiled.Ref) : (state.record setting own other).aliases = state.aliases := by
  cases accepted : state.accepts own other with
  | true => rw [record_of_accepts accepted]
  | false => rw [record_of_rejected accepted]; rfl

@[simp]
theorem record_overflow (setting : Setting) (state : State) (own : Source.Ref)
    (other : Compiled.Ref) : (state.record setting own other).overflow = state.overflow := by
  cases accepted : state.accepts own other with
  | true => rw [record_of_accepts accepted]
  | false => rw [record_of_rejected accepted]; rfl

theorem noteOverflow_kept (exceeds : Bool) (raised : state.overflow = true) :
    (state.noteOverflow exceeds).overflow = true :=
  Bool.or_eq_true_iff.mpr (.inl raised)

/-- Something was noted about the file. -/
def Noticed (state : State) : Prop :=
  ∃ notice ∈ state.notices, notice.file = state.file.path

theorem noticed_notice (line : Option Nat) (finding : Finding) :
    (state.notice line finding).Noticed :=
  ⟨⟨state.file.path, line, finding⟩, by simp [State.notice], rfl⟩

/-- An element is matched, or something was noted about the file. -/
def Settled (state : State) (element : Source.Ref) : Prop :=
  state.file.isLinked element = true ∨ state.Noticed

end State

/-! ### Growth -/

/-- What matching only adds to: the file, the taken elements, the links and the notices.  A number that
is no word stays noted. -/
structure State.Grows (state later : State) : Prop where
  extended : state.file.Extends later.file
  consumed : ∀ element, state.isConsumed element = true → later.isConsumed element = true
  notices : ∀ notice ∈ state.notices, notice ∈ later.notices
  overflow : state.overflow = true → later.overflow = true

namespace State.Grows

variable {state later final : State}

theorem refl (state : State) : state.Grows state := ⟨.refl _, fun _ => id, fun _ => id, id⟩

theorem trans (first : state.Grows later) (second : later.Grows final) : state.Grows final where
  extended := first.extended.trans second.extended
  consumed element taken := second.consumed element (first.consumed element taken)
  notices notice noted := second.notices notice (first.notices notice noted)
  overflow raised := second.overflow (first.overflow raised)

theorem noticed (grown : state.Grows later) (before : state.Noticed) : later.Noticed := by
  obtain ⟨notice, noted, here⟩ := before
  exact ⟨notice, grown.notices notice noted, here.trans grown.extended.path.symm⟩

theorem settled (grown : state.Grows later) {element : Source.Ref}
    (before : state.Settled element) : later.Settled element :=
  before.imp grown.extended.isLinked grown.noticed

end State.Grows

/-! ### Numbers that are no words -/

/-- A call of the file has to be compared with a compiled call of the same name, and the number after
that of its arguments is asked for but is no word. -/
structure Exceeds (pool : Compiled.Pool) (arities : ArityTable) (file : Source.File)
    (call : Source.Handle .invocation) (other : Compiled.Handle .invocation) : Prop where
  known : call.index < file.invocations.size
  named : (pool.invocationAt other).name = (file.invocationAt call).name
  differs : (pool.invocationAt other).arity ≠ (file.invocationAt call).arity
  unanswered : arities.isPlausible? (pool.invocationAt other).namingId
    (pool.invocationAt other).arity (file.invocationAt call).arity = none

/-- Some call of the file exceeds the words. -/
def MayExceed (pool : Compiled.Pool) (arities : ArityTable) (file : Source.File) : Prop :=
  ∃ call other, Exceeds pool arities file call other

section Exceeds

variable {pool : Compiled.Pool} {arities : ArityTable} {file later : Source.File}
  {call : Source.Handle .invocation} {other : Compiled.Handle .invocation}

/-- All that matters of the file is the call. -/
theorem Exceeds.of_same (exceeds : Exceeds pool arities file call other)
    (known : call.index < later.invocations.size)
    (same : later.invocationAt call = file.invocationAt call) :
    Exceeds pool arities later call other where
  known := known
  named := same ▸ exceeds.named
  differs := same ▸ exceeds.differs
  unanswered := same ▸ exceeds.unanswered

theorem MayExceed.mono (exceeds : MayExceed pool arities file) (extended : file.Extends later) :
    MayExceed pool arities later := by
  obtain ⟨call, other, asked⟩ := exceeds
  refine ⟨call, other, asked.of_same ?_ (extended.invocationAt asked.known)⟩
  exact Nat.lt_of_lt_of_le asked.known extended.invocations.size_le

end Exceeds

/-! ### Sequences of matches -/

/-- A step of matching that leaves the elements of the file alone. -/
inductive LinkStep (setting : Setting) (permitted : Source.Ref → Compiled.Ref → Prop) :
    State → State → Prop where
  /-- A match of two elements that are not matched yet. -/
  | accept {state : State} {own : Source.Ref} {other : Compiled.Ref} (allowed : permitted own other)
      (accepted : state.accepts own other = true) :
      LinkStep setting permitted state (state.record setting own other)
  | note {state : State} (line : Option Nat) {finding : Finding}
      (fresh : finding.kind ≠ .redundantMatch) :
      LinkStep setting permitted state (state.notice line finding)
  | aliased {state : State} (symbol slot : String) :
      LinkStep setting permitted state (state.addAlias symbol slot)
  | compared {state : State} {exceeds : Bool}
      (asked : exceeds = true → MayExceed setting.pool setting.arities state.file) :
      LinkStep setting permitted state (state.noteOverflow exceeds)

/-- Steps of matching one after the other, with the matches that are permitted. -/
abbrev LinkSteps (setting : Setting) (permitted : Source.Ref → Compiled.Ref → Prop) :
    State → State → Prop :=
  Relation.ReflTransGen (LinkStep setting permitted)

/-- Every match is permitted. -/
def anyMatch (_ : Source.Ref) (_ : Compiled.Ref) : Prop := True

/-- What steps of matching change: matches are added, notices are added, and nothing else. -/
structure Gains (permitted : Source.Ref → Compiled.Ref → Prop)
    (state later : State) : Prop where
  relinked : state.file.Relinked later.file
  pairs : later.pairs = state.pairs
  link_kept : ∀ element link, state.file.link? element = some link →
    later.file.link? element = some link
  link_new : ∀ element link, later.file.link? element = some link →
    state.file.link? element = some link ∨ permitted element link.compiled
  consumed_kept : ∀ element, state.isConsumed element = true → later.isConsumed element = true
  consumed_new : ∀ element, later.isConsumed element = true →
    state.isConsumed element = true ∨ ∃ own, permitted own element
  notices_kept : ∀ notice ∈ state.notices, notice ∈ later.notices
  overflow_kept : state.overflow = true → later.overflow = true

namespace Gains

variable {setting : Setting} {permitted : Source.Ref → Compiled.Ref → Prop}
  {state later final : State}

theorem refl (state : State) : Gains permitted state state where
  relinked := .refl _
  pairs := rfl
  link_kept _ _ := id
  link_new _ _ := .inl
  consumed_kept _ := id
  consumed_new _ := .inl
  notices_kept _ := id
  overflow_kept := id

theorem trans (first : Gains permitted state later)
    (second : Gains permitted later final) : Gains permitted state final where
  relinked := first.relinked.trans second.relinked
  pairs := second.pairs.trans first.pairs
  link_kept element link linked :=
    second.link_kept element link (first.link_kept element link linked)
  link_new element link linked :=
    (second.link_new element link linked).elim (first.link_new element link) .inr
  consumed_kept element consumed :=
    second.consumed_kept element (first.consumed_kept element consumed)
  consumed_new element consumed :=
    (second.consumed_new element consumed).elim (first.consumed_new element) .inr
  notices_kept notice noted := second.notices_kept notice (first.notices_kept notice noted)
  overflow_kept raised := second.overflow_kept (first.overflow_kept raised)

theorem of_step (step : LinkStep setting permitted state later) :
    Gains permitted state later := by
  cases step with
  | @accept own other allowed accepted =>
      have opened := State.accepts_iff.mp accepted
      constructor
      case relinked => rw [State.record_of_accepts accepted]; exact ⟨_, rfl⟩
      case pairs => rw [State.record_of_accepts accepted]
      case link_kept =>
        intro element link linked
        have different : own ≠ element := by
          rintro rfl
          exact Source.File.not_link_of_unlinked opened.2 linked
        rw [State.link_record accepted, if_neg different]
        exact linked
      case link_new =>
        intro element link linked
        rw [State.link_record accepted] at linked
        split at linked
        · next same =>
          obtain rfl := Option.some.inj linked
          exact .inr (same ▸ allowed)
        · exact .inl linked
      case consumed_kept =>
        intro element consumed
        exact (State.isConsumed_record accepted element).mpr (.inr consumed)
      case consumed_new =>
        intro element consumed
        rcases (State.isConsumed_record accepted element).mp consumed with rfl | before
        · exact .inr ⟨own, allowed⟩
        · exact .inl before
      case notices_kept => rw [State.record_of_accepts accepted]; exact fun _ => id
      case overflow_kept => rw [State.record_overflow]; exact id
  | note line fresh =>
      exact
        { refl state with
          relinked := .refl _
          notices_kept := fun notice noted => Array.mem_push.mpr (.inl noted) }
  | aliased symbol slot => exact { refl state with relinked := .refl _ }
  | compared asked =>
      exact
        { refl state with
          relinked := .refl _
          overflow_kept := State.noteOverflow_kept _ }

/-- What may not be matched keeps the link that it has, or has none. -/
theorem link_eq (gained : Gains permitted state later) {element : Source.Ref}
    (untouched : ∀ other, ¬ permitted element other) :
    later.file.link? element = state.file.link? element := by
  refine Option.ext fun link => ⟨fun found => ?_, gained.link_kept element link⟩
  exact (gained.link_new element link found).resolve_right (untouched link.compiled)

theorem grows (gained : Gains permitted state later) : state.Grows later where
  extended := .of_relinked gained.relinked gained.link_kept
  consumed := gained.consumed_kept
  notices := gained.notices_kept
  overflow := gained.overflow_kept

end Gains

namespace LinkSteps

variable {setting : Setting} {permitted : Source.Ref → Compiled.Ref → Prop}
  {state later : State}

theorem gains (steps : LinkSteps setting permitted state later) :
    Gains permitted state later := by
  induction steps with
  | refl => exact .refl state
  | tail _ step inductionHypothesis => exact inductionHypothesis.trans (.of_step step)

theorem mono {allowed : Source.Ref → Compiled.Ref → Prop}
    (weaker : ∀ own other, permitted own other → allowed own other)
    (steps : LinkSteps setting permitted state later) : LinkSteps setting allowed state later := by
  refine Relation.ReflTransGen.mono (fun _ _ step => ?_) _ _ steps
  cases step with
  | accept permission accepted => exact .accept (weaker _ _ permission) accepted
  | note line fresh => exact .note line fresh
  | aliased symbol slot => exact .aliased symbol slot
  | compared asked => exact .compared asked

theorem any (steps : LinkSteps setting permitted state later) :
    LinkSteps setting anyMatch state later :=
  steps.mono fun _ _ _ => trivial

theorem unlinked (steps : LinkSteps setting permitted state later) {element : Source.Ref}
    (before : state.file.isLinked element = false) (untouched : ∀ other, ¬ permitted element other) :
    later.file.isLinked element = false := by
  cases found : later.file.link? element with
  | none => rw [Source.File.isLinked, found]; rfl
  | some link =>
      rcases steps.gains.link_new element link found with linked | permission
      · exact absurd linked (Source.File.not_link_of_unlinked before)
      · exact absurd permission (untouched link.compiled)

theorem opened (steps : LinkSteps setting permitted state later) {element : Compiled.Ref}
    (before : state.isConsumed element = false) (untouched : ∀ own, ¬ permitted own element) :
    later.isConsumed element = false := by
  rw [Bool.eq_false_iff] at before ⊢
  intro consumed
  rcases steps.gains.consumed_new element consumed with taken | ⟨own, permission⟩
  · exact before taken
  · exact untouched own permission

theorem linked (steps : LinkSteps setting permitted state later) {element : Source.Ref}
    (before : state.file.isLinked element = true) : later.file.isLinked element = true := by
  obtain ⟨link, found⟩ := Source.File.exists_link before
  exact Source.File.isLinked_of_link (steps.gains.link_kept element link found)

theorem noticed (steps : LinkSteps setting permitted state later) (before : state.Noticed) :
    later.Noticed := by
  obtain ⟨notice, noted, here⟩ := before
  exact ⟨notice, steps.gains.notices_kept notice noted, here.trans steps.gains.relinked.path.symm⟩

theorem settled (steps : LinkSteps setting permitted state later) {element : Source.Ref}
    (before : state.Settled element) : later.Settled element :=
  before.imp steps.linked steps.noticed

end LinkSteps

/-! ### Passes over groups -/

/-- A pass takes a step for every item.  An item that is clear when its turn comes makes its own moves
and is brought to an end that lasts, and no item spoils those that follow.  Then the whole pass is
made of the moves of its items, and every item is at its end. -/
theorem foldl_stages {σ γ : Type} {start : σ} {step : σ → γ → σ} {moves : γ → σ → σ → Prop}
    {reaches : σ → σ → Prop} {clear done : γ → σ → Prop} (refl : ∀ state, reaches state state)
    (trans : ∀ {state later final}, reaches state later → reaches later final → reaches state final)
    (items : List γ)
    (weaker : ∀ item ∈ items, ∀ state later, moves item state later → reaches state later)
    (advance : ∀ item ∈ items, ∀ state, reaches start state → clear item state →
      moves item state (step state item) ∧ done item (step state item))
    (kept : items.Pairwise fun item next => ∀ state later, reaches start state →
      moves item state later → clear next state → clear next later)
    (lasting : ∀ item ∈ items, ∀ state later, reaches start state → reaches state later →
      done item state → done item later)
    (ready : ∀ item ∈ items, clear item start) :
    reaches start (items.foldl step start) ∧ ∀ item ∈ items, done item (items.foldl step start) := by
  induction items generalizing start with
  | nil => exact ⟨refl start, nofun⟩
  | cons first rest inductionHypothesis =>
      rw [List.pairwise_cons] at kept
      obtain ⟨firstMoves, firstDone⟩ :=
        advance first List.mem_cons_self start (refl start) (ready first List.mem_cons_self)
      have firstReaches := weaker first List.mem_cons_self _ _ firstMoves
      obtain ⟨restReaches, restDone⟩ := @inductionHypothesis (step start first)
        (fun item member => weaker item (List.mem_cons_of_mem _ member))
        (fun item member state steps =>
          advance item (List.mem_cons_of_mem _ member) state (trans firstReaches steps))
        (kept.2.imp fun preserved state later steps =>
          preserved state later (trans firstReaches steps))
        (fun item member state later steps =>
          lasting item (List.mem_cons_of_mem _ member) state later (trans firstReaches steps))
        (fun item member => kept.1 item member start _ (refl start) firstMoves
          (ready item (List.mem_cons_of_mem _ member)))
      rw [List.foldl_cons]
      refine ⟨trans firstReaches restReaches, fun item member => ?_⟩
      rcases List.mem_cons.mp member with rfl | later
      · exact lasting item List.mem_cons_self _ _ firstReaches restReaches firstDone
      · exact restDone item later

/-- A pass over groups of elements that are matched group by group. -/
theorem foldl_links {γ : Type} {setting : Setting} {start : State} {step : State → γ → State}
    {permitted : γ → Source.Ref → Compiled.Ref → Prop} {clear done : γ → State → Prop}
    (groups : List γ)
    (advance : ∀ group ∈ groups, ∀ state, LinkSteps setting anyMatch start state →
      clear group state →
      LinkSteps setting (permitted group) state (step state group) ∧ done group (step state group))
    (kept : groups.Pairwise fun group next => ∀ state later,
      LinkSteps setting (permitted group) state later → clear next state → clear next later)
    (lasting : ∀ group ∈ groups, ∀ state later, LinkSteps setting anyMatch state later →
      done group state → done group later)
    (ready : ∀ group ∈ groups, clear group start) :
    LinkSteps setting (fun own other => ∃ group ∈ groups, permitted group own other) start
      (groups.foldl step start) ∧ ∀ group ∈ groups, done group (groups.foldl step start) := by
  refine foldl_stages (fun _ => .refl) (fun first second => first.trans second) groups ?_ ?_
    (kept.imp fun preserved state later _ => preserved state later) ?_ ready
  · exact fun group member state later steps =>
      steps.mono fun own other permission => ⟨group, member, permission⟩
  · intro group member state steps
    exact advance group member state steps.any
  · intro group member state later _ steps
    exact lasting group member state later steps.any

/-- A pass whose steps may start anywhere. -/
theorem foldl_each_ends {γ : Type} {setting : Setting}
    {permitted : Source.Ref → Compiled.Ref → Prop} {step : State → γ → State}
    {done : γ → State → Prop} (items : List γ) {start : State}
    (advance : ∀ item ∈ items, ∀ state, LinkSteps setting anyMatch start state →
      LinkSteps setting permitted state (step state item) ∧ done item (step state item))
    (lasting : ∀ item ∈ items, ∀ state later, LinkSteps setting anyMatch state later →
      done item state → done item later) :
    LinkSteps setting permitted start (items.foldl step start) ∧
      ∀ item ∈ items, done item (items.foldl step start) := by
  have pass := @foldl_links _ setting start step (fun _ => permitted) (fun _ _ => True) done items
  obtain ⟨steps, ends⟩ := pass (fun item member state steps _ => advance item member state steps)
    (List.pairwise_of_forall fun _ _ _ _ _ _ => trivial) lasting fun _ _ => trivial
  exact ⟨steps.mono fun _ _ ⟨_, _, permission⟩ => permission, ends⟩

theorem foldl_each {γ : Type} {setting : Setting} {permitted : Source.Ref → Compiled.Ref → Prop}
    {step : State → γ → State} (items : List γ) {start : State}
    (advance : ∀ item ∈ items, ∀ state, LinkSteps setting anyMatch start state →
      LinkSteps setting permitted state (step state item)) :
    LinkSteps setting permitted start (items.foldl step start) :=
  (@foldl_each_ends _ _ _ _ (fun _ _ => True) items _
    (fun item member state steps => ⟨advance item member state steps, trivial⟩)
    fun _ _ _ _ _ _ => trivial).1

/-! ### Pairs of elements -/

/-- The pair at a place of two lists that are paired position by position. -/
theorem mem_zipRefs {sourceKind : Source.Kind} {compiledKind : Compiled.Kind}
    {sources : List (Source.Handle sourceKind)} {compiled : List (Compiled.Handle compiledKind)}
    {pair : Source.Ref × Compiled.Ref} :
    pair ∈ State.zipRefs sources compiled ↔
      ∃ own other, (own, other) ∈ sources.zip compiled ∧ pair = (own.ref, other.ref) := by
  simp [State.zipRefs, List.zip_map, eq_comm]

/-- A group is paired where both sides have no element twice and all elements are open.  If the order
of lines does not forbid it, then every pair is matched. -/
theorem pairGroup_links {setting : Setting} {state : State}
    {pairs : List (Source.Ref × Compiled.Ref)} (group : String)
    (sources_nodup : (pairs.map Prod.fst).Nodup) (compiled_nodup : (pairs.map Prod.snd).Nodup)
    (unlinked : ∀ pair ∈ pairs, state.file.isLinked pair.1 = false)
    (opened : ∀ pair ∈ pairs, state.isConsumed pair.2 = false) :
    let final := state.pairGroup setting group pairs
    LinkSteps setting (fun own other => (own, other) ∈ pairs) state final ∧
      ((setting.options.verifyOrdering = false ∨
          firstInversion? (pairLines state.file setting.pool pairs) = none) →
        ∀ pair ∈ pairs, final.file.link? pair.1 = some ⟨pair.2, setting.pool.elementId pair.2⟩) ∧
      ∀ pair ∈ pairs, final.Settled pair.1 := by
  have recorded : LinkSteps setting
        (fun own other => ∃ pair ∈ pairs, own = pair.1 ∧ other = pair.2) state
        (pairs.foldl (fun state pair => state.record setting pair.1 pair.2) state) ∧
      ∀ pair ∈ pairs,
        (pairs.foldl (fun state pair => state.record setting pair.1 pair.2) state).file.link?
          pair.1 = some ⟨pair.2, setting.pool.elementId pair.2⟩ := by
    refine @foldl_links _ setting state _ (fun pair own other => own = pair.1 ∧ other = pair.2)
      (fun pair state => state.file.isLinked pair.1 = false ∧ state.isConsumed pair.2 = false)
      (fun pair state => state.file.link? pair.1 = some ⟨pair.2, setting.pool.elementId pair.2⟩)
      pairs ?_ ?_ ?_ ?_
    · intro pair _ current _ clear
      have accepted := State.accepts_iff.mpr clear.symm
      exact ⟨.single (.accept ⟨rfl, rfl⟩ accepted), by rw [State.link_record accepted, if_pos rfl]⟩
    · have apart := List.pairwise_map.mp sources_nodup |>.and (List.pairwise_map.mp compiled_nodup)
      refine apart.imp fun {first next} different current later steps clear => ⟨?_, ?_⟩
      · exact steps.unlinked clear.1 fun _ same => different.1 same.1.symm
      · exact steps.opened clear.2 fun _ same => different.2 same.2.symm
    · intro pair _ current later steps linked
      exact steps.gains.link_kept _ _ linked
    · intro pair member
      exact ⟨unlinked pair member, opened pair member⟩
  have permission {own : Source.Ref} {other : Compiled.Ref}
      (allowed : ∃ pair ∈ pairs, own = pair.1 ∧ other = pair.2) : (own, other) ∈ pairs := by
    obtain ⟨pair, member, rfl, rfl⟩ := allowed
    exact member
  dsimp only
  unfold State.pairGroup
  dsimp only
  split
  · next first second inversion =>
    refine ⟨.single (.note _ nofun), fun ordered => ?_, fun pair _ => .inr ?_⟩
    · split at inversion
      · next verified =>
        rcases ordered with off | none_inverted
        · cases off.symm.trans verified
        · rw [none_inverted] at inversion
          cases inversion
      · cases inversion
    · exact State.noticed_notice _ _
  · refine ⟨recorded.1.mono fun own other => permission, fun _ => recorded.2, fun pair member => ?_⟩
    exact .inl (Source.File.isLinked_of_link (recorded.2 pair member))

end Correlate.Matching
