/-
Module: Correlate.Proofs.Matching.Accesses
Purpose: What matching the field accesses of two methods comes to.
Main exports: KindsAgree, State.AccessesSettled, State.matchFieldAccesses_links,
  State.matchOuterThis_links
-/
import Correlate.Matching.FieldAccess
import Correlate.Proofs.Matching.Fit
import Correlate.Proofs.Matching.Groups

namespace Correlate.Matching

/-- Position by position, two lists of accesses agree in reading and writing. -/
def KindsAgree (pool : Compiled.Pool) (file : Source.File)
    (sources : List (Source.Handle .fieldAccess)) (compiled : List (Compiled.Handle .fieldAccess)) :
    Prop :=
  ∀ (i : Nat) own other, sources[i]? = some own → compiled[i]? = some other →
    (file.fieldAccessAt own).kind = (pool.fieldAccessAt other).kind

namespace State

variable {setting : Setting} {state : State} {source : Source.Handle .method}
  {compiled : Compiled.Handle .method}

/-- The accesses of a method to a field, reads of enclosing instances left out. -/
def accessesTo (file : Source.File) (source : Source.Handle .method) (name : String) :
    List (Source.Handle .fieldAccess) :=
  ((file.methodAt source).fieldAccesses.filter fun access =>
    (file.fieldAccessAt access).outerThis.isNone).filter fun access =>
      (file.fieldAccessAt access).name = name

/-- The compiled accesses of a method to a field. -/
def compiledAccessesTo (pool : Compiled.Pool) (compiled : Compiled.Handle .method)
    (name : String) : List (Compiled.Handle .fieldAccess) :=
  (pool.methodAt compiled).fieldAccesses.filter fun access => (pool.fieldAccessAt access).name = name

/-- A match of accesses of one kind. -/
def BetweenAlike (pool : Compiled.Pool) (file : Source.File)
    (sources : List (Source.Handle .fieldAccess)) (compiled : List (Compiled.Handle .fieldAccess))
    (own : Source.Ref) (other : Compiled.Ref) : Prop :=
  ∃ a ∈ sources, ∃ c ∈ compiled, own = a.ref ∧ other = c.ref ∧
    (pool.fieldAccessAt c).kind = (file.fieldAccessAt a).kind

/-- What the pass over accesses brings the accesses to a field to. -/
def AccessesSettled (setting : Setting) (state : State) (file : Source.File)
    (source : Source.Handle .method) (compiled : Compiled.Handle .method) (name : String) : Prop :=
  (KindsAgree setting.pool file (accessesTo file source name)
      (compiledAccessesTo setting.pool compiled name) →
    PairedInOrder setting state.file (accessesTo file source name)
      (compiledAccessesTo setting.pool compiled name)) ∧
    ∀ own ∈ accessesTo file source name, state.Settled own.ref

section Group

variable {file : Source.File} {sources : List (Source.Handle .fieldAccess)}
  {candidates : List (Compiled.Handle .fieldAccess)}

/-- The accesses of one kind are matched or something is noted. -/
theorem matchAccessesOfKind_links (same : file.Relinked state.file) (name : String)
    (kind : AccessKind) (sources_nodup : sources.Nodup) (candidates_nodup : candidates.Nodup)
    (unlinked : ∀ own ∈ sources, (file.fieldAccessAt own).kind = kind →
      state.file.isLinked own.ref = false)
    (opened : ∀ other ∈ candidates, (setting.pool.fieldAccessAt other).kind = kind →
      state.isConsumed other.ref = false) :
    let final := state.matchAccessesOfKind setting name sources candidates kind
    LinkSteps setting
        (fun own other => ∃ a ∈ sources, ∃ c ∈ candidates, own = a.ref ∧ other = c.ref ∧
          (file.fieldAccessAt a).kind = kind ∧ (setting.pool.fieldAccessAt c).kind = kind)
        state final ∧
      ∀ own ∈ sources, (file.fieldAccessAt own).kind = kind → final.Settled own.ref := by
  dsimp only
  unfold matchAccessesOfKind
  simp only [same.fieldAccessAt]
  have mem_sources {own : Source.Handle .fieldAccess} :
      own ∈ sources.filter (fun access => (file.fieldAccessAt access).kind = kind) ↔
        own ∈ sources ∧ (file.fieldAccessAt own).kind = kind := by
    simp
  split
  · next none_listed =>
    refine ⟨.refl, fun own member alike => ?_⟩
    have present := mem_sources.mpr ⟨member, alike⟩
    rw [none_listed] at present
    exact absurd present List.not_mem_nil
  · split
    · next sized =>
      obtain ⟨steps, _, settled⟩ := pairZip_links (kind.idLead ++ name) sized
        (sources_nodup.filter _) (candidates_nodup.filter _)
        (fun own member => unlinked own (mem_sources.mp member).1 (mem_sources.mp member).2)
        fun other member => opened other (List.mem_filter.mp member).1
          (of_decide_eq_true (List.mem_filter.mp member).2)
      refine ⟨steps.mono fun own other permission => ?_,
        fun own member alike => settled own (mem_sources.mpr ⟨member, alike⟩)⟩
      obtain ⟨a, isSource, c, isCompiled, isOwn, isOther⟩ := permission.between
      obtain ⟨listed, alike⟩ := mem_sources.mp isSource
      obtain ⟨compiledListed, compiledAlike⟩ := List.mem_filter.mp isCompiled
      exact ⟨a, listed, c, compiledListed, isOwn, isOther, alike, of_decide_eq_true compiledAlike⟩
    · exact ⟨.single (.note _ nofun), fun _ _ _ => .inr (noticed_notice _ _)⟩

/-- Where the numbers of accesses differ, reads and writes are matched on their own. -/
theorem matchAccessKinds_links (same : file.Relinked state.file) (name : String)
    (sources_nodup : sources.Nodup) (candidates_nodup : candidates.Nodup)
    (unlinked : ∀ own ∈ sources, state.file.isLinked own.ref = false)
    (opened : ∀ other ∈ candidates, state.isConsumed other.ref = false) :
    let final := AccessKind.all.foldl (matchAccessesOfKind setting name sources candidates) state
    LinkSteps setting (BetweenAlike setting.pool file sources candidates) state final ∧
      ∀ own ∈ sources, final.Settled own.ref := by
  have pass := @foldl_links _ setting state (matchAccessesOfKind setting name sources candidates)
    (fun kind own other => ∃ a ∈ sources, ∃ c ∈ candidates, own = a.ref ∧ other = c.ref ∧
      (file.fieldAccessAt a).kind = kind ∧ (setting.pool.fieldAccessAt c).kind = kind)
    (fun kind current =>
      (∀ own ∈ sources, (file.fieldAccessAt own).kind = kind →
        current.file.isLinked own.ref = false) ∧
      ∀ other ∈ candidates, (setting.pool.fieldAccessAt other).kind = kind →
        current.isConsumed other.ref = false)
    (fun kind current => ∀ own ∈ sources, (file.fieldAccessAt own).kind = kind →
      current.Settled own.ref) AccessKind.all
  obtain ⟨steps, settled⟩ := by
    refine pass ?advance ?kept ?lasting ?ready
    case advance =>
      exact fun kind _ current steps clear => matchAccessesOfKind_links
        (same.trans steps.gains.relinked) name kind sources_nodup candidates_nodup clear.1 clear.2
    case kept =>
      have apart : AccessKind.all.Nodup := by decide
      refine apart.imp fun {kind next} different current later steps clear => ⟨?_, ?_⟩
      · refine fun own member alike => steps.unlinked (clear.1 own member alike) ?_
        rintro _ ⟨a, _, _, _, isOwn, _, otherwise, _⟩
        obtain rfl := ref_injective isOwn
        exact different (otherwise.symm.trans alike)
      · refine fun other member alike => steps.opened (clear.2 other member alike) ?_
        rintro _ ⟨_, _, c, _, _, isOther, _, otherwise⟩
        obtain rfl := compiledRef_injective isOther
        exact different (otherwise.symm.trans alike)
    case lasting =>
      exact fun kind _ current later steps settled own member alike =>
        steps.settled (settled own member alike)
    case ready =>
      exact fun kind _ => ⟨fun own member _ => unlinked own member,
        fun other member _ => opened other member⟩
  refine ⟨steps.mono fun own other permission => ?_, fun own member => ?_⟩
  · obtain ⟨kind, _, a, isSource, c, isCompiled, isOwn, isOther, alike, compiledAlike⟩ := permission
    exact ⟨a, isSource, c, isCompiled, isOwn, isOther, compiledAlike.trans alike.symm⟩
  · have every (kind : AccessKind) : kind ∈ AccessKind.all := by cases kind <;> decide
    exact settled _ (every _) own member rfl

/-- Paired accesses without a mismatch agree in kind. -/
theorem zipped_alike (same : file.Relinked state.file)
    (agreed : state.firstKindMismatch? setting sources candidates = none) {a c}
    (zipped : (a, c) ∈ sources.zip candidates) :
    (file.fieldAccessAt a).kind = (setting.pool.fieldAccessAt c).kind := by
  simp only [firstKindMismatch?, Option.map_eq_none_iff, List.find?_eq_none, Prod.forall,
    same.fieldAccessAt] at agreed
  simpa using agreed a c zipped

theorem no_mismatch (same : file.Relinked state.file)
    (agree : KindsAgree setting.pool file sources candidates) :
    state.firstKindMismatch? setting sources candidates = none := by
  simp only [firstKindMismatch?, Option.map_eq_none_iff, List.find?_eq_none, Prod.forall,
    same.fieldAccessAt]
  intro a c zipped
  obtain ⟨i, atPlace⟩ := List.mem_iff_getElem?.mp zipped
  obtain ⟨isOwn, isOther⟩ := List.getElem?_zip_eq_some.mp atPlace
  simpa using agree i a c isOwn isOther

theorem matchAccessGroup_links {candidates : Grouping String (Compiled.Handle .fieldAccess)}
    {name : String}
    (found : candidates.members name = compiledAccessesTo setting.pool compiled name)
    (same : file.Relinked state.file) (sources_nodup : (accessesTo file source name).Nodup)
    (compiled_nodup : (compiledAccessesTo setting.pool compiled name).Nodup)
    (unlinked : ∀ own ∈ accessesTo file source name, state.file.isLinked own.ref = false)
    (opened : ∀ other ∈ compiledAccessesTo setting.pool compiled name,
      state.isConsumed other.ref = false) :
    let final := state.matchAccessGroup setting candidates (name, accessesTo file source name)
    LinkSteps setting
        (BetweenAlike setting.pool file (accessesTo file source name)
          (compiledAccessesTo setting.pool compiled name)) state final ∧
      AccessesSettled setting final file source compiled name := by
  dsimp only
  unfold matchAccessGroup
  dsimp only
  rw [found]
  split
  · next sized =>
    split
    · next access mismatch =>
      refine ⟨.single (.note _ nofun), fun agree => ?_, fun _ _ => .inr (noticed_notice _ _)⟩
      rw [no_mismatch same agree] at mismatch
      cases mismatch
    · next agreed =>
      obtain ⟨steps, paired, settled⟩ := pairZip_links s!"accesses of {name}" sized.symm
        sources_nodup compiled_nodup unlinked opened
      refine ⟨steps.mono fun own other permission => ?_, fun _ => paired, settled⟩
      obtain ⟨a, c, zipped, isOwn, isOther⟩ := permission
      exact ⟨a, (List.of_mem_zip zipped).1, c, (List.of_mem_zip zipped).2, isOwn, isOther,
        (zipped_alike same agreed zipped).symm⟩
  · next uneven =>
    obtain ⟨steps, settled⟩ :=
      matchAccessKinds_links same name sources_nodup compiled_nodup unlinked opened
    exact ⟨steps, fun _ sized => absurd sized.symm uneven, settled⟩

end Group

theorem matchFieldAccesses_links (formed : state.file.WellFormed)
    (poolFormed : setting.pool.WellFormed)
    (unlinked : ∀ own ∈ (state.file.methodAt source).fieldAccesses,
      state.file.isLinked own.ref = false)
    (opened : ∀ other ∈ (setting.pool.methodAt compiled).fieldAccesses,
      state.isConsumed other.ref = false) :
    let final := state.matchFieldAccesses setting source compiled
    LinkSteps setting (FitsOfKind setting state.file source compiled .fieldAccess .fieldAccess)
        state final ∧
      ∀ name, AccessesSettled setting final state.file source compiled name := by
  have sources_nodup := ((formed.list_nodup .fieldAccess source).of_map _).filter
    fun access => (state.file.fieldAccessAt access).outerThis.isNone
  have compiled_nodup := (poolFormed.list_nodup .fieldAccess compiled).of_map _
  have candidates (name : String) : (state.openAccesses setting compiled).members name =
      compiledAccessesTo setting.pool compiled name := by
    rw [openAccesses, openOf_eq opened, members_groupBy]
    rfl
  have pass := @foldl_groups setting .fieldAccess .fieldAccess
    ((state.file.methodAt source).fieldAccesses.filter fun access =>
      (state.file.fieldAccessAt access).outerThis.isNone)
    (setting.pool.methodAt compiled).fieldAccesses _ _ state
    (fun access => (state.file.fieldAccessAt access).name)
    (fun access => (setting.pool.fieldAccessAt access).name)
    (matchAccessGroup setting (state.openAccesses setting compiled))
    (fun name => BetweenAlike setting.pool state.file (accessesTo state.file source name)
      (compiledAccessesTo setting.pool compiled name))
    (fun name current => AccessesSettled setting current state.file source compiled name)
    _ (List.Sublist.refl _)
  obtain ⟨steps, ends⟩ := by
    refine pass ?within ?advance ?lasting
      (fun own member => unlinked own (List.mem_filter.mp member).1) opened
    case within =>
      rintro name own other ⟨a, isSource, c, isCompiled, isOwn, isOther, _⟩
      exact ⟨a, isSource, c, isCompiled, isOwn, isOther⟩
    case advance =>
      intro name current _ steps groupUnlinked groupOpened
      exact matchAccessGroup_links (candidates name) steps.gains.relinked
        (sources_nodup.filter _) (compiled_nodup.filter _) groupUnlinked groupOpened
    case lasting =>
      exact fun name current later steps settled => ⟨fun agree => steps.pairedInOrder
        (settled.1 agree), fun own member => steps.settled (settled.2 own member)⟩
  refine ⟨steps.mono fun own other permission => ?_, fun name => ?_⟩
  · obtain ⟨name, _, a, isSource, c, isCompiled, rfl, rfl, alike⟩ := permission
    obtain ⟨isPlain, named⟩ := List.mem_filter.mp isSource
    obtain ⟨listed, plain⟩ := List.mem_filter.mp isPlain
    obtain ⟨compiledListed, compiledNamed⟩ := List.mem_filter.mp isCompiled
    exact ⟨rfl, rfl, .access listed compiledListed (Option.isNone_iff_eq_none.mp plain)
      ((of_decide_eq_true compiledNamed).trans (of_decide_eq_true named).symm) alike⟩
  · by_cases present : ∃ own, own ∈ accessesTo state.file source name
    · obtain ⟨own, member⟩ := present
      obtain ⟨isPlain, named⟩ := List.mem_filter.mp member
      obtain rfl := of_decide_eq_true named
      exact ends _ (mem_groupBy_of_mem isPlain)
    · refine ⟨fun _ _ _ i own other isOwn => ?_, fun own member => absurd ⟨own, member⟩ present⟩
      exact absurd ⟨own, List.mem_of_getElem? isOwn⟩ present

/-! ### Enclosing instances -/

theorem read_of_isRead {kind : AccessKind} (reads : kind.isRead = true) : kind = .read := by
  cases kind with
  | read => rfl
  | write => exact absurd reads nofun

theorem mem_openOuterThis {access : Source.Handle .fieldAccess × String}
    (member : access ∈ state.openOuterThis source) :
    access.1 ∈ (state.file.methodAt source).fieldAccesses ∧
      state.file.isLinked access.1.ref = false ∧
      (state.file.fieldAccessAt access.1).outerThis = some access.2 := by
  obtain ⟨own, listed, chosen⟩ := List.mem_filterMap.mp member
  split at chosen
  · cases chosen
  · next unlinked =>
    obtain ⟨qualifier, qualified, rfl⟩ := Option.map_eq_some_iff.mp chosen
    exact ⟨listed, Bool.eq_false_iff.mpr unlinked, qualified⟩

/-- Open reads of enclosing instances are matched with open reads of fields that hold these. -/
theorem matchOuterThis_links (formed : state.file.WellFormed) (pair : MethodPair) :
    LinkSteps setting (StatementFits setting state.file pair.1 pair.2) state
      (state.matchOuterThis setting pair) := by
  have apart : (state.openOuterThis pair.1).Pairwise fun access next => access.1 ≠ next.1 := by
    refine List.Pairwise.filterMap _ ?_ ((formed.list_nodup .fieldAccess pair.1).of_map _)
    intro access next different own chosen other chosenNext
    split at chosen
    · cases chosen
    · split at chosenNext
      · cases chosenNext
      · obtain ⟨_, _, rfl⟩ := Option.map_eq_some_iff.mp chosen
        obtain ⟨_, _, rfl⟩ := Option.map_eq_some_iff.mp chosenNext
        exact different
  have pass := @foldl_links _ setting state (matchOuterThisAccess setting pair.2)
    (fun access own other => own = access.1.ref ∧
      StatementFits setting state.file pair.1 pair.2 own other)
    (fun access current => current.file.isLinked access.1.ref = false) (fun _ _ => True)
    (state.openOuterThis pair.1)
  refine (pass ?advance ?kept (fun _ _ _ _ _ _ => trivial) ?ready).1.mono ?weaker
  case weaker => exact fun _ _ ⟨_, _, permission⟩ => permission.2
  case ready => exact fun access member => (mem_openOuterThis member).2.1
  case kept =>
    refine apart.imp fun {access next} different current later steps clear => ?_
    exact steps.unlinked clear fun _ same => different (ref_injective same.1.symm)
  case advance =>
    intro access member current steps clear
    obtain ⟨listed, _, qualified⟩ := mem_openOuterThis member
    refine ⟨?_, trivial⟩
    unfold matchOuterThisAccess
    split
    · next counterpart found =>
      have compiledListed := List.mem_of_find?_eq_some found
      have chosen := List.find?_some found
      simp only [Bool.and_eq_true, Bool.not_eq_true'] at chosen
      obtain ⟨⟨⟨opened, reads⟩, captured⟩, typed⟩ := chosen
      rw [steps.gains.relinked.resolve] at typed
      exact .single (.accept
        ⟨rfl, .outerThis listed compiledListed qualified (read_of_isRead reads) captured typed⟩
        (accepts_iff.mpr ⟨opened, clear⟩))
    · exact .refl

end State

end Correlate.Matching
