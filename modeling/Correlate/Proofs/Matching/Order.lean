/-
Module: Correlate.Proofs.Matching.Order
Purpose: Matches inside two methods keep the order of lines, group by group.
Main exports: Inverted, not_inverted_of_mem, GroupKey, groupOf?, Settles, Settles.pairZip,
  Settles.foldl_groups
-/
import Mathlib.Data.List.Pairwise
import Correlate.Proofs.Matching.Bodies

namespace Correlate.Matching

/-!
The order of lines is checked whenever a group is paired by position.  But a group may also be
settled line by line, or in two halves.  `Settles` says that what a pass matches belongs to certain
groups and that no two of its matches in one group come in opposite orders.  Passes over different
groups compose.
-/

/-! ### Lines in opposite orders -/

/-- Two matches whose lines are known.  The first one comes first in the source and second in the
compiled code. -/
def Inverted (pool : Compiled.Pool) (file : Source.File) (first second : Source.Ref × Compiled.Ref) :
    Prop :=
  ∃ firstLine secondLine firstCompiled secondCompiled,
    file.startLine? first.1 = some firstLine ∧ file.startLine? second.1 = some secondLine ∧
      pool.elementLine first.2 = some firstCompiled ∧
      pool.elementLine second.2 = some secondCompiled ∧
      firstLine < secondLine ∧ secondCompiled < firstCompiled

/-- Two matches that each stay on one line. -/
theorem not_inverted_of_sameLine {pool : Compiled.Pool} {file : Source.File}
    {first second : Source.Ref × Compiled.Ref} {line other : Nat}
    (firstLine : file.startLine? first.1 = some line)
    (firstCompiled : pool.elementLine first.2 = some line)
    (secondLine : file.startLine? second.1 = some other)
    (secondCompiled : pool.elementLine second.2 = some other) :
    ¬ Inverted pool file first second := by
  rintro ⟨_, _, _, _, isFirst, isSecond, isFirstCompiled, isSecondCompiled, before, after⟩
  obtain rfl := Option.some.inj (firstLine.symm.trans isFirst)
  obtain rfl := Option.some.inj (firstCompiled.symm.trans isFirstCompiled)
  obtain rfl := Option.some.inj (secondLine.symm.trans isSecond)
  obtain rfl := Option.some.inj (secondCompiled.symm.trans isSecondCompiled)
  exact Nat.lt_asymm before after

theorem LinedPair.contradicts_comm (one other : LinedPair) :
    one.contradicts other = other.contradicts one :=
  Bool.or_comm _ _

theorem LinedPair.not_contradicts_self (pair : LinedPair) : pair.contradicts pair = false := by
  simp [LinedPair.contradicts]

/-- The pairs with both lines known, by their places. -/
theorem mem_linedPairs {index : Nat} {lines : List (Option Nat × Option Nat)}
    {pair : LinedPair} :
    pair ∈ linedPairs index lines ↔
      ∃ k, pair.index = index + k ∧
        lines[k]? = some (some pair.sourceLine, some pair.compiledLine) := by
  fun_induction linedPairs index lines with
  | case1 => simp
  | case2 index sourceLine compiledLine rest inductionHypothesis =>
      rw [List.mem_cons, inductionHypothesis]
      constructor
      · rintro (rfl | ⟨k, place, stands⟩)
        · exact ⟨0, rfl, rfl⟩
        · exact ⟨k + 1, by omega, stands⟩
      · rintro ⟨k, place, stands⟩
        cases k with
        | zero =>
            obtain ⟨isSource, isCompiled⟩ := Prod.mk.inj (Option.some.inj stands)
            obtain rfl := Option.some.inj isSource
            obtain rfl := Option.some.inj isCompiled
            exact .inl (congrArg (LinedPair.mk · pair.sourceLine pair.compiledLine) place)
        | succ k => exact .inr ⟨k, by omega, stands⟩
  | case3 index first rest unlined inductionHypothesis =>
      rw [inductionHypothesis]
      constructor
      · rintro ⟨k, place, stands⟩
        exact ⟨k + 1, by omega, stands⟩
      · rintro ⟨k, place, stands⟩
        cases k with
        | zero => exact absurd (Option.some.inj stands) (unlined _ _)
        | succ k => exact ⟨k, by omega, stands⟩

theorem pairwise_of_firstContradiction {pairs : List LinedPair}
    (none_found : firstContradiction? pairs = none) :
    pairs.Pairwise fun one other => one.contradicts other = false := by
  induction pairs with
  | nil => exact .nil
  | cons first rest inductionHypothesis =>
      unfold firstContradiction? at none_found
      split at none_found
      · cases none_found
      · next agreed =>
        refine .cons (fun other member => ?_) (inductionHypothesis none_found)
        exact Bool.eq_false_iff.mpr (List.find?_eq_none.mp agreed other member)

/-- Of pairs among which no contradiction is found, no two contradict each other. -/
theorem not_contradicts_of_none {pairs : List LinedPair}
    (none_found : firstContradiction? pairs = none) {one other : LinedPair} (isOne : one ∈ pairs)
    (isOther : other ∈ pairs) : one.contradicts other = false := by
  have pairwise := pairwise_of_firstContradiction none_found
  exact pairwise.forall_of_forall_of_flip (fun pair _ => pair.not_contradicts_self)
    (pairwise.imp fun {one other} agreed => (other.contradicts_comm one).trans agreed) isOne isOther

/-- Of pairs that pass the check, no two come in opposite orders. -/
theorem not_inverted_of_mem {pool : Compiled.Pool} {file : Source.File}
    {pairs : List (Source.Ref × Compiled.Ref)}
    (checked : firstInversion? (pairLines file pool pairs) = none)
    {first second : Source.Ref × Compiled.Ref} (isFirst : first ∈ pairs)
    (isSecond : second ∈ pairs) : ¬ Inverted pool file first second := by
  rintro ⟨firstLine, secondLine, firstCompiled, secondCompiled, isFirstLine, isSecondLine,
    isFirstCompiled, isSecondCompiled, before, after⟩
  have lined {pair : Source.Ref × Compiled.Ref} {line compiledLine : Nat} (isPair : pair ∈ pairs)
      (isLine : file.startLine? pair.1 = some line)
      (isCompiled : pool.elementLine pair.2 = some compiledLine) :
      ∃ i, ⟨i, line, compiledLine⟩ ∈ linedPairs 0 (pairLines file pool pairs) := by
    obtain ⟨i, found⟩ := List.mem_iff_getElem?.mp isPair
    refine ⟨i, mem_linedPairs.mpr ⟨i, (Nat.zero_add i).symm, ?_⟩⟩
    rw [pairLines, List.getElem?_map, found, Option.map_some]
    exact congrArg some (Prod.ext isLine isCompiled)
  obtain ⟨i, one⟩ := lined isFirst isFirstLine isFirstCompiled
  obtain ⟨j, other⟩ := lined isSecond isSecondLine isSecondCompiled
  have agreed := not_contradicts_of_none checked one other
  simp [LinedPair.contradicts, before, after] at agreed

/-! ### Groups -/

/-- What the elements of a method are grouped by. -/
inductive GroupKey where
  | call (key : State.CallKey)
  | allocation (key : String)
  | access (name : String) (kind : AccessKind)
  | cast
  | reference (name : String)
deriving DecidableEq, Repr

/-- The kind of the elements of a group. -/
def GroupKey.kind : GroupKey → Source.Kind
  | .call _ => .invocation
  | .allocation _ => .allocation
  | .access _ _ => .fieldAccess
  | .cast => .cast
  | .reference _ => .methodRef

/-- The group that the match of two elements belongs to.  Reads of enclosing instances are in no
group, and allocations only where they are matched with allocations. -/
def groupOf? (file : Source.File) (own : Source.Ref) (other : Compiled.Ref) : Option GroupKey :=
  match own.kind with
  | .invocation => some (.call (State.callKey file ⟨own.index⟩))
  | .allocation =>
      if other.kind = .allocation then
        some (.allocation (allocationKey (file.allocationAt ⟨own.index⟩)))
      else none
  | .fieldAccess =>
      let record := file.fieldAccessAt ⟨own.index⟩
      if record.outerThis.isNone then some (.access record.name record.kind) else none
  | .cast => some .cast
  | .methodRef => some (.reference (file.methodRefAt ⟨own.index⟩).name)
  | _ => none

theorem kind_of_groupOf {file : Source.File} {own : Source.Ref} {other : Compiled.Ref}
    {key : GroupKey} (grouped : groupOf? file own other = some key) : key.kind = own.kind := by
  unfold groupOf? at grouped
  split at grouped
  case h_6 => cases grouped
  all_goals
    next isKind =>
      rw [isKind]
      first
      | obtain rfl := Option.some.inj grouped
        rfl
      | obtain ⟨_, isKey⟩ := Option.ite_none_right_eq_some.mp grouped
        obtain rfl := Option.some.inj isKey
        rfl

/-- A match that belongs to one of some groups of a method, if it belongs to a group at all. -/
def Within (file : Source.File) (method : Source.Handle .method) (chosen : GroupKey → Prop)
    (own : Source.Ref) (other : Compiled.Ref) : Prop :=
  ∀ key, groupOf? file own other = some key →
    file.owningMethod? own = some method ∧ chosen key

theorem Within.mono {file : Source.File} {method : Source.Handle .method}
    {chosen wider : GroupKey → Prop} {own : Source.Ref} {other : Compiled.Ref}
    (narrower : ∀ key, chosen key → wider key) (within : Within file method chosen own other) :
    Within file method wider own other :=
  fun key grouped => ⟨(within key grouped).1, narrower key (within key grouped).2⟩

/-- The match of an element that a method lists. -/
theorem Within.of_listed {file : Source.File} {method : Source.Handle .method}
    {chosen : GroupKey → Prop} {other : Compiled.Ref} (formed : file.WellFormed)
    (part : Source.Part) {i : Nat} (listed : i ∈ part.list (file.methodAt method))
    (keyed : ∀ key, groupOf? file ⟨part.kind, i⟩ other = some key → chosen key) :
    Within file method chosen ⟨part.kind, i⟩ other :=
  fun key grouped => ⟨(formed.owner_of_listed part listed).2, keyed key grouped⟩

/-! ### What is matched on the way -/

/-- An element is linked on the way from one state to another. -/
def Gained (state later : State) (own : Source.Ref) (other : Compiled.Ref) : Prop :=
  state.file.isLinked own = false ∧ ∃ id, later.file.link? own = some ⟨other, id⟩

namespace Gains

variable {permitted : Source.Ref → Compiled.Ref → Prop} {state later final : State}

theorem permits (gains : Gains permitted state later) {own : Source.Ref} {other : Compiled.Ref}
    (gained : Gained state later own other) : permitted own other := by
  obtain ⟨unlinked, id, found⟩ := gained
  apply (gains.link_new own _ found).resolve_left
  exact Source.File.not_link_of_unlinked unlinked

/-- What is linked in the end is linked in one of two parts of the way. -/
theorem split (second : Gains permitted later final) {own : Source.Ref} {other : Compiled.Ref}
    (gained : Gained state final own other) :
    Gained state later own other ∨ Gained later final own other := by
  obtain ⟨unlinked, id, found⟩ := gained
  cases linked : later.file.isLinked own with
  | false => exact .inr ⟨linked, id, found⟩
  | true =>
      obtain ⟨link, before⟩ := Source.File.exists_link linked
      obtain rfl := Option.some.inj ((second.link_kept own link before).symm.trans found)
      exact .inl ⟨unlinked, id, before⟩

theorem mono {allowed : Source.Ref → Compiled.Ref → Prop}
    (weaker : ∀ own other, permitted own other → allowed own other)
    (gains : Gains permitted state later) : Gains allowed state later :=
  { gains with
    link_new := fun element link found =>
      (gains.link_new element link found).imp_right (weaker element link.compiled)
    consumed_new := fun element taken =>
      (gains.consumed_new element taken).imp_right fun ⟨own, permission⟩ =>
        ⟨own, weaker own element permission⟩ }

theorem notice (line : Option Nat) (finding : Finding) :
    Gains permitted state (state.notice line finding) :=
  { refl state with
    relinked := .refl _
    notices_kept := fun _ noted => Array.mem_push.mpr (.inl noted) }

theorem noteOverflow (exceeds : Bool) : Gains permitted state (state.noteOverflow exceeds) :=
  { refl state with
    relinked := .refl _
    overflow_kept := State.noteOverflow_kept exceeds }

/-- A match that may be made, whether or not it can be made. -/
theorem record {setting : Setting} {own : Source.Ref} {other : Compiled.Ref}
    (permission : permitted own other) : Gains permitted state (state.record setting own other) := by
  cases accepted : state.accepts own other with
  | true => exact .of_step (.accept permission accepted)
  | false =>
      rw [State.record_of_rejected accepted]
      exact notice _ _

theorem foldl {γ : Type} {step : State → γ → State} (items : List γ) {start : State}
    (advance : ∀ item ∈ items, ∀ state, Gains permitted start state →
      Gains permitted state (step state item)) :
    Gains permitted start (items.foldl step start) :=
  (@foldl_stages _ _ start step (fun _ => Gains permitted) (Gains permitted) (fun _ _ => True)
    (fun _ _ => True) .refl Gains.trans items (fun _ _ _ _ => id)
    (fun item member state gains _ => ⟨advance item member state gains, trivial⟩)
    (List.pairwise_of_forall fun _ _ _ _ _ _ _ => trivial) (fun _ _ _ _ _ _ _ => trivial)
    fun _ _ => trivial).1

/-- Groups are paired only where no check forbids it. -/
theorem pairGroup {setting : Setting} (group : String) (pairs : List (Source.Ref × Compiled.Ref)) :
    Gains (fun own other => (own, other) ∈ pairs ∧
        (setting.options.verifyOrdering = true →
          firstInversion? (pairLines state.file setting.pool pairs) = none))
      state (state.pairGroup setting group pairs) := by
  unfold State.pairGroup
  dsimp only
  split
  · exact notice _ _
  · next agreed =>
    refine foldl pairs fun pair member current _ => record ⟨member, fun verified => ?_⟩
    rw [if_pos verified] at agreed
    exact agreed

end Gains

/-! ### Passes over groups -/

/-- Matches of some groups of a method are made.  No two of them that are in one group come in
opposite orders. -/
structure Settles (setting : Setting) (file : Source.File) (method : Source.Handle .method)
    (chosen : GroupKey → Prop) (state later : State) : Prop where
  gains : Gains (Within file method chosen) state later
  inOrder : ∀ {key first firstOther second secondOther},
    Gained state later first firstOther → Gained state later second secondOther →
    groupOf? file first firstOther = some key → groupOf? file second secondOther = some key →
    ¬ Inverted setting.pool file (first, firstOther) (second, secondOther)

namespace Settles

variable {setting : Setting} {file : Source.File} {method : Source.Handle .method}
  {chosen others wider : GroupKey → Prop} {state later final : State}

/-- Matches that are in order, whichever are made. -/
theorem of_gains {permitted : Source.Ref → Compiled.Ref → Prop} (gains : Gains permitted state later)
    (within : ∀ own other, permitted own other → Within file method chosen own other)
    (inOrder : ∀ first firstOther second secondOther, permitted first firstOther →
      permitted second secondOther →
      ¬ Inverted setting.pool file (first, firstOther) (second, secondOther)) :
    Settles setting file method chosen state later where
  gains := gains.mono within
  inOrder isFirst isSecond _ _ := inOrder _ _ _ _ (gains.permits isFirst) (gains.permits isSecond)

/-- Steps that match nothing that belongs to a group. -/
theorem of_ungrouped {permitted : Source.Ref → Compiled.Ref → Prop}
    (gains : Gains permitted state later)
    (ungrouped : ∀ own other, permitted own other → groupOf? file own other = none) :
    Settles setting file method chosen state later where
  gains := gains.mono fun own other permission key grouped => by
    cases (ungrouped own other permission).symm.trans grouped
  inOrder isFirst _ grouped _ := by
    cases (ungrouped _ _ (gains.permits isFirst)).symm.trans grouped

theorem refl (state : State) : Settles setting file method chosen state state :=
  of_ungrouped (.refl state) (fun _ _ => False.elim)

theorem notice (line : Option Nat) (finding : Finding) :
    Settles setting file method chosen state (state.notice line finding) :=
  of_ungrouped (.notice line finding) (fun _ _ => False.elim)

theorem mono (narrower : ∀ key, chosen key → wider key)
    (settles : Settles setting file method chosen state later) :
    Settles setting file method wider state later :=
  { settles with gains := settles.gains.mono fun _ _ => .mono narrower }

/-- Passes over different groups. -/
theorem trans (apart : ∀ key, chosen key → ¬ others key)
    (first : Settles setting file method chosen state later)
    (second : Settles setting file method others later final) :
    Settles setting file method (fun key => chosen key ∨ others key) state final where
  gains := (first.gains.mono fun _ _ => .mono fun _ => .inl).trans
    (second.gains.mono fun _ _ => .mono fun _ => .inr)
  inOrder := by
    intro key one oneOther two twoOther gainedOne gainedTwo keyOne keyTwo
    rcases second.gains.split gainedOne with oneFirst | oneSecond
    · rcases second.gains.split gainedTwo with twoFirst | twoSecond
      · exact first.inOrder oneFirst twoFirst keyOne keyTwo
      · have isChosen := (first.gains.permits oneFirst key keyOne).2
        exact absurd (second.gains.permits twoSecond key keyTwo).2 (apart key isChosen)
    · rcases second.gains.split gainedTwo with twoFirst | twoSecond
      · have isChosen := (first.gains.permits twoFirst key keyTwo).2
        exact absurd (second.gains.permits oneSecond key keyOne).2 (apart key isChosen)
      · exact second.inOrder oneSecond twoSecond keyOne keyTwo

/-- A group that is paired where the order of lines is checked. -/
theorem pairGroup {pairs : List (Source.Ref × Compiled.Ref)}
    (verified : setting.options.verifyOrdering = true) (same : file.Relinked state.file)
    (group : String)
    (within : ∀ own other, (own, other) ∈ pairs → Within file method chosen own other) :
    Settles setting file method chosen state (state.pairGroup setting group pairs) := by
  apply of_gains (.pairGroup group pairs)
  · exact fun own other permission => within own other permission.1
  · intro first firstOther second secondOther isFirst isSecond
    have checked := isFirst.2 verified
    have lines : pairLines state.file setting.pool pairs = pairLines file setting.pool pairs :=
      List.map_congr_left fun pair _ =>
        congrArg (·, setting.pool.elementLine pair.2) (same.startLine pair.1)
    rw [lines] at checked
    exact not_inverted_of_mem checked isFirst.1 isSecond.1

/-- Elements of a group that are paired by position. -/
theorem pairZip {sourceKind : Source.Kind} {compiledKind : Compiled.Kind}
    {sources : List (Source.Handle sourceKind)} {candidates : List (Compiled.Handle compiledKind)}
    (verified : setting.options.verifyOrdering = true) (same : file.Relinked state.file)
    (group : String)
    (within : ∀ own ∈ sources, ∀ other, Within file method chosen own.ref other) :
    Settles setting file method chosen state
      (state.pairGroup setting group (State.zipRefs sources candidates)) := by
  apply pairGroup verified same
  intro own other member
  obtain ⟨a, c, zipped, isPair⟩ := mem_zipRefs.mp member
  obtain ⟨rfl, rfl⟩ := Prod.mk.inj isPair
  exact within a (List.of_mem_zip zipped).1 c.ref

/-- A pass that goes through different groups. -/
theorem foldl {γ : Type} {step : State → γ → State} {groups : γ → GroupKey → Prop}
    (items : List γ)
    (apart : items.Pairwise fun item next => ∀ key, groups item key → ¬ groups next key)
    (same : file.Relinked state.file)
    (advance : ∀ item ∈ items, ∀ current, file.Relinked current.file →
      Settles setting file method (groups item) current (step current item)) :
    Settles setting file method (fun key => ∃ item ∈ items, groups item key) state
      (items.foldl step state) := by
  induction items generalizing state with
  | nil => exact .refl state
  | cons item rest inductionHypothesis =>
      rw [List.pairwise_cons] at apart
      have first := advance item List.mem_cons_self state same
      have others := inductionHypothesis apart.2 (same.trans first.gains.relinked)
        fun next member => advance next (List.mem_cons_of_mem _ member)
      rw [List.foldl_cons]
      refine (first.trans ?_ others).mono ?_
      · rintro key isFirst ⟨next, member, isNext⟩
        exact apart.1 next member key isFirst isNext
      · rintro key (isFirst | ⟨next, member, isNext⟩)
        · exact ⟨item, List.mem_cons_self, isFirst⟩
        · exact ⟨next, List.mem_cons_of_mem _ member, isNext⟩

/-- A pass that goes through groups of elements. -/
theorem foldl_groups {κ : Type} [DecidableEq κ] {kind : Source.Kind}
    {key : Source.Handle kind → κ} {sources : List (Source.Handle kind)}
    {step : State → κ × List (Source.Handle kind) → State} (keys : κ → GroupKey → Prop)
    {groups : Grouping κ (Source.Handle kind)} (listed : groups.Sublist (groupBy key sources))
    (apart : ∀ {k next groupKey}, keys k groupKey → keys next groupKey → k = next)
    (same : file.Relinked state.file)
    (advance : ∀ k current, (k, sources.filter (key · = k)) ∈ groups →
      file.Relinked current.file → Settles setting file method (keys k) current
        (step current (k, sources.filter (key · = k)))) :
    Settles setting file method (fun groupKey => ∃ group ∈ groups, keys group.1 groupKey) state
      (groups.foldl step state) := by
  apply foldl groups _ same
  · rintro ⟨k, members⟩ isGroup current
    obtain rfl := (mem_groupBy.mp (listed.subset isGroup)).2
    exact advance k current isGroup
  · apply ((groupBy_keys_apart key sources).sublist listed).imp
    intro group next different groupKey isFirst isNext
    exact different (apart isFirst isNext)

end Settles

end Correlate.Matching
