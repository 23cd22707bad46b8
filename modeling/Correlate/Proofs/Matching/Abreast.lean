/-
Module: Correlate.Proofs.Matching.Abreast
Purpose: A strict and a lossy run at the same place of the same file.
Main exports: Displaced, Kept, Ahead, Abreast, Abreast.lockstep, Abreast.matchAllocations,
  Abreast.matchReflectiveArrays, Abreast.fill
-/
import Correlate.Proofs.Matching.Lockstep
import Correlate.Proofs.Matching.Pristine

namespace Correlate.Matching

/-!
A lossy run pairs allocations line by line where a strict run pairs none of their group.  While bodies
are matched, the lossy run is ahead of the strict one: it has the links of allocations that the strict
run has, and further ones to compiled allocations.  This leaves it with fewer open arrays when calls
that create arrays are dealt out, and then their number may no longer agree.  Apart from allocations
and from these calls, both runs do the same.
-/

/-! ### Links of allocations -/

/-- The strict run links the allocation to a call, the lossy one to a compiled allocation. -/
def Displaced (strict lossy : Source.File) (own : Source.Handle .allocation) : Prop :=
  (∃ link, strict.link? own = some link ∧ link.compiled.kind = .invocation) ∧
    ∃ link, lossy.link? own = some link ∧ link.compiled.kind = .allocation

/-- The lossy run has the link of the strict run, unless this is a link of an allocation to a call and
some allocation of the same method is displaced. -/
def Kept (file strict lossy : Source.File) (own : Source.Ref) : Prop :=
  ∀ link, strict.link? own = some link →
    lossy.link? own = some link ∨
      own.kind = .allocation ∧ link.compiled.kind = .invocation ∧
        ∃ other : Source.Handle .allocation, other.index < file.allocations.size ∧
          file.owningMethod? other = file.owningMethod? own ∧ Displaced strict lossy other

/-- The lossy run has the link of the strict run, and may have one to a compiled allocation where the
strict run has none. -/
structure Ahead (strict lossy : Source.File) (own : Source.Ref) : Prop where
  kept : ∀ link, strict.link? own = some link → lossy.link? own = some link
  gained : ∀ link, lossy.link? own = some link →
    strict.link? own = some link ∨ link.compiled.kind = .allocation

section Links

variable {file strict lossy strictLater lossyLater : Source.File} {own : Source.Ref}

theorem Ahead.stays (ahead : Ahead strict lossy own) : Kept file strict lossy own :=
  fun link found => .inl (ahead.kept link found)

theorem Ahead.congr (ahead : Ahead strict lossy own)
    (strictSame : strictLater.link? own = strict.link? own)
    (lossySame : lossyLater.link? own = lossy.link? own) : Ahead strictLater lossyLater own where
  kept link found := by rw [lossySame]; exact ahead.kept link (strictSame ▸ found)
  gained link found := by rw [strictSame]; exact ahead.gained link (lossySame ▸ found)

/-- Whatever is displaced stays so. -/
theorem Kept.grow (kept : Kept file strict lossy own)
    (strictSame : strictLater.link? own = strict.link? own)
    (strictGrown : ∀ element link, strict.link? element = some link →
      strictLater.link? element = some link)
    (lossyGrown : ∀ element link, lossy.link? element = some link →
      lossyLater.link? element = some link) : Kept file strictLater lossyLater own := by
  intro link found
  rw [strictSame] at found
  rcases kept link found with same | ⟨isAllocation, toCall, other, known, owner,
    ⟨call, called, isCall⟩, created, creates, isCreated⟩
  · exact .inl (lossyGrown own link same)
  · exact .inr ⟨isAllocation, toCall, other, known, owner,
      ⟨call, strictGrown _ _ called, isCall⟩, created, lossyGrown _ _ creates, isCreated⟩

end Links

/-! ### What both runs share -/

/-- A compiled call that creates an array. -/
def CreatesArray (pool : Compiled.Pool) (element : Compiled.Ref) : Prop :=
  element.kind = .invocation ∧
    (pool.invocationAt ⟨element.index⟩).namingId = ReservedName.reflectiveArrayFactory

/-- Both runs take the element alike: it is no allocation, and if it is a call that creates an array, then
one of a method that is still fresh. -/
def Shared (pool : Compiled.Pool) (fresh : Compiled.Handle .method → Prop)
    (element : Compiled.Ref) : Prop :=
  element.kind ≠ .allocation ∧ (CreatesArray pool element →
    ∃ compiled, pool.owningMethod? element = some compiled ∧ fresh compiled)

/-- An element of the file other than an allocation; if it is a method, then one of the given ones. -/
def Common (file : Source.File) (here : Source.Handle .method → Prop) (element : Source.Ref) : Prop :=
  element.index < file.count element.kind ∧ element.kind ≠ .allocation ∧
    ∀ method : Source.Handle .method, element = method.ref → here method

theorem Shared.of_kind {pool : Compiled.Pool} {fresh : Compiled.Handle .method → Prop}
    {element : Compiled.Ref} (noCall : element.kind ≠ .invocation)
    (noAllocation : element.kind ≠ .allocation) : Shared pool fresh element :=
  ⟨noAllocation, fun creates => absurd creates.1 noCall⟩

theorem Shared.mono {pool : Compiled.Pool} {fresh more : Compiled.Handle .method → Prop}
    {element : Compiled.Ref} (shared : Shared pool fresh element)
    (weaker : ∀ compiled, fresh compiled → more compiled) : Shared pool more element := by
  refine ⟨shared.1, fun creates => ?_⟩
  obtain ⟨compiled, owned, isFresh⟩ := shared.2 creates
  exact ⟨compiled, owned, weaker compiled isFresh⟩

theorem Common.of_kind {file : Source.File} {here : Source.Handle .method → Prop}
    {element : Source.Ref} (known : element.index < file.count element.kind)
    (noAllocation : element.kind ≠ .allocation) (noMethod : element.kind ≠ .method) :
    Common file here element := by
  refine ⟨known, noAllocation, ?_⟩
  rintro _ rfl
  exact absurd rfl noMethod

/-- Nothing is claimed of any method. -/
def noneOf {α : Type} (_ : α) : Prop := False

/-- A strict and a lossy run have come to the same place of a file.  In the methods that are here, the
strict run and the lossy one have made no stand-ins, and the lossy one is ahead in the allocations; both
have taken the same calls of the compiled methods that are fresh. -/
structure Abreast (pool : Compiled.Pool) (file : Source.File)
    (here : Source.Handle .method → Prop) (fresh : Compiled.Handle .method → Prop)
    (strict lossy : State) : Prop where
  strictExtends : file.Extends strict.file
  lossyExtends : file.Extends lossy.file
  pairs : strict.pairs = lossy.pairs
  links : ∀ element, element.index < file.count element.kind → element.kind ≠ .allocation →
    strict.file.link? element = lossy.file.link? element
  alike : ∀ element, Shared pool fresh element →
    strict.isConsumed element = lossy.isConsumed element
  strictMethods : ∀ method, here method → strict.file.methodAt method = file.methodAt method
  lossyMethods : ∀ method, here method → lossy.file.methodAt method = file.methodAt method
  ahead : ∀ method, here method → ∀ own ∈ (file.methodAt method).allocations,
    Ahead strict.file lossy.file own.ref
  kept : ∀ own : Source.Handle .allocation, own.index < file.allocations.size →
    Kept file strict.file lossy.file own.ref

namespace Abreast

variable {setting : Setting} {i : Nat} {pool : Compiled.Pool} {file : Source.File}
  {here fewer : Source.Handle .method → Prop} {fresh left : Compiled.Handle .method → Prop}
  {strict lossy strictLater lossyLater : State}

/-- Less may be claimed. -/
theorem weaken (now : Abreast pool file here fresh strict lossy)
    (hereLess : ∀ method, fewer method → here method)
    (freshLess : ∀ compiled, left compiled → fresh compiled) :
    Abreast pool file fewer left strict lossy :=
  { now with
    alike := fun element shared => now.alike element (shared.mono freshLess)
    strictMethods := fun method isHere => now.strictMethods method (hereLess method isHere)
    lossyMethods := fun method isHere => now.lossyMethods method (hereLess method isHere)
    ahead := fun method isHere => now.ahead method (hereLess method isHere) }

/-- The files tell the same of their common elements. -/
theorem agree (now : Abreast pool file here fresh strict lossy) :
    strict.file.Agree (Common file here) lossy.file where
  lines _ common :=
    (now.strictExtends.startLine common.1).trans (now.lossyExtends.startLine common.1).symm
  binaryName type :=
    (now.strictExtends.binaryName type).trans (now.lossyExtends.binaryName type).symm
  typeMethods type :=
    (now.strictExtends.typeMethods type).trans (now.lossyExtends.typeMethods type).symm
  fieldAt _ common :=
    (now.strictExtends.fieldAt common.1).trans (now.lossyExtends.fieldAt common.1).symm
  methodAt method common :=
    (now.strictMethods method (common.2.2 method rfl)).trans
      (now.lossyMethods method (common.2.2 method rfl)).symm
  invocationAt _ common :=
    (now.strictExtends.invocationAt common.1).trans (now.lossyExtends.invocationAt common.1).symm
  fieldAccessAt access :=
    (now.strictExtends.fieldAccessAt access).trans (now.lossyExtends.fieldAccessAt access).symm
  methodRefAt reference :=
    (now.strictExtends.methodRefAt reference).trans (now.lossyExtends.methodRefAt reference).symm
  paramTypes method :=
    (now.strictExtends.paramTypes method).trans (now.lossyExtends.paramTypes method).symm
  resolve spelling :=
    (now.strictExtends.resolve spelling).trans (now.lossyExtends.resolve spelling).symm

theorem linked (now : Abreast pool file here fresh strict lossy) {element : Source.Ref}
    (known : element.index < file.count element.kind) (noAllocation : element.kind ≠ .allocation) :
    strict.file.isLinked element = lossy.file.isLinked element := by
  rw [Source.File.isLinked, Source.File.isLinked, now.links element known noAllocation]

theorem accepts (now : Abreast pool file here fresh strict lossy) {own : Source.Ref}
    {other : Compiled.Ref} (known : own.index < file.count own.kind)
    (noAllocation : own.kind ≠ .allocation) (shared : Shared pool fresh other) :
    strict.accepts own other = lossy.accepts own other := by
  have taken := now.alike other shared
  unfold State.isConsumed at taken
  rw [State.accepts, State.accepts, Registry.accepts, Registry.accepts, taken,
    now.linked known noAllocation]

/-! ### What both runs do alike -/

theorem notice (now : Abreast pool file here fresh strict lossy) (line otherLine : Option Nat)
    (finding otherFinding : Finding) :
    Abreast pool file here fresh (strict.notice line finding) (lossy.notice otherLine otherFinding) :=
  { now with }

theorem addPair (now : Abreast pool file here fresh strict lossy) (pair : MethodPair) :
    Abreast pool file here fresh (strict.addPair pair) (lossy.addPair pair) :=
  { now with pairs := by rw [State.addPair, State.addPair, now.pairs] }

theorem forgetPairs (now : Abreast pool file here fresh strict lossy) :
    Abreast pool file here fresh { strict with pairs := [] } { lossy with pairs := [] } :=
  { now with pairs := rfl }

/-- A match that no allocation and no call for an array takes part in. -/
theorem record (now : Abreast setting.pool file here fresh strict lossy) {own : Source.Ref}
    {other : Compiled.Ref} (known : own.index < file.count own.kind)
    (noAllocation : own.kind ≠ .allocation) (shared : Shared setting.pool fresh other) :
    Abreast setting.pool file here fresh (strict.record setting own other)
      (lossy.record (setting.varied i true) own other) := by
  have same := now.accepts known noAllocation shared
  cases accepted : strict.accepts own other with
  | false =>
      rw [State.record_of_rejected accepted, State.record_of_rejected (same ▸ accepted)]
      exact now.notice _ _ _ _
  | true =>
      have lossyAccepted : lossy.accepts own other = true := same ▸ accepted
      have strictLink := @State.link_record setting _ _ _ accepted
      have lossyLink := @State.link_record (setting.varied i true) _ _ _ lossyAccepted
      have strictGrown := State.record_extends setting strict own other
      have lossyGrown := State.record_extends (setting.varied i true) lossy own other
      have apart {allocation : Source.Handle .allocation} : own ≠ allocation.ref := by
        rintro rfl
        exact noAllocation rfl
      constructor
      case strictExtends => exact now.strictExtends.trans strictGrown
      case lossyExtends => exact now.lossyExtends.trans lossyGrown
      case pairs => rw [State.record_pairs, State.record_pairs, now.pairs]
      case links =>
        intro element elementKnown elementNoAllocation
        rw [strictLink, lossyLink, now.links element elementKnown elementNoAllocation]
      case alike =>
        intro element elementShared
        rw [Bool.eq_iff_iff, State.isConsumed_record accepted,
          State.isConsumed_record lossyAccepted, now.alike element elementShared]
      case strictMethods =>
        intro method isHere
        rw [(State.record_relinked setting strict own other).methodAt]
        exact now.strictMethods method isHere
      case lossyMethods =>
        intro method isHere
        rw [(State.record_relinked (setting.varied i true) lossy own other).methodAt]
        exact now.lossyMethods method isHere
      case ahead =>
        intro method isHere allocation listed
        apply (now.ahead method isHere allocation listed).congr
        · rw [strictLink, if_neg apart]
        · rw [lossyLink, if_neg apart]
      case kept =>
        intro allocation allocationKnown
        apply (now.kept allocation allocationKnown).grow _ strictGrown.links lossyGrown.links
        rw [strictLink, if_neg apart]

/-- Whatever does not concern allocations is done alike. -/
theorem lockstep (setting : Setting) (i : Nat) (file : Source.File)
    (here : Source.Handle .method → Prop) (fresh : Compiled.Handle .method → Prop) :
    Lockstep setting i true (Common file here) (Shared setting.pool fresh)
      (Abreast setting.pool file here fresh) where
  agree now := now.agree
  linked now _ common := now.linked common.1 common.2.1
  consumed now := now.alike
  notice now _ _ := now.notice _ _ _ _
  aliased now _ _ := { now with }
  overflow now _ _ := { now with }
  record now _ _ common shared := now.record common.1 common.2.1 shared

/-! ### Allocations -/

/-- A match of an allocation of a method with what may be taken. -/
def Creates (file : Source.File) (source : Source.Handle .method) (takes : Compiled.Ref → Prop)
    (own : Source.Ref) (other : Compiled.Ref) : Prop :=
  (∃ allocation ∈ (file.methodAt source).allocations, own = allocation.ref) ∧ takes other

/-- Each run matches allocations of one method, and what both share from then on is not taken. -/
theorem gain {source : Source.Handle .method} {takes : Compiled.Ref → Prop}
    (now : Abreast pool file here fresh strict lossy) (formed : file.WellFormed)
    (hereLess : ∀ method, fewer method → here method)
    (freshLess : ∀ compiled, left compiled → fresh compiled)
    (strictGained : Gains (Creates file source takes) strict strictLater)
    (lossyGained : Gains (Creates file source takes) lossy lossyLater)
    (apart : ∀ other, takes other → ¬ Shared pool left other)
    (ahead : fewer source → ∀ own ∈ (file.methodAt source).allocations,
      Ahead strictLater.file lossyLater.file own.ref)
    (kept : ∀ own ∈ (file.methodAt source).allocations,
      Kept file strictLater.file lossyLater.file own.ref) :
    Abreast pool file fewer left strictLater lossyLater := by
  have strictGrown := strictGained.grows.extended
  have lossyGrown := lossyGained.grows.extended
  have consumed {state later : State} (gained : Gains (Creates file source takes) state later)
      {element : Compiled.Ref} (shared : Shared pool left element) :
      later.isConsumed element = state.isConsumed element := by
    rw [Bool.eq_iff_iff]
    refine ⟨fun taken => (gained.consumed_new element taken).resolve_right ?_,
      gained.consumed_kept element⟩
    rintro ⟨_, _, isTaken⟩
    exact apart element isTaken shared
  constructor
  case strictExtends => exact now.strictExtends.trans strictGrown
  case lossyExtends => exact now.lossyExtends.trans lossyGrown
  case pairs => rw [strictGained.pairs, lossyGained.pairs, now.pairs]
  case links =>
    intro element known noAllocation
    have untouched : ∀ other, ¬ Creates file source takes element other := by
      rintro other ⟨⟨_, _, rfl⟩, _⟩
      exact noAllocation rfl
    rw [strictGained.link_eq untouched, lossyGained.link_eq untouched,
      now.links element known noAllocation]
  case alike =>
    intro element shared
    rw [consumed strictGained shared, consumed lossyGained shared]
    exact now.alike element (shared.mono freshLess)
  case strictMethods =>
    intro method isHere
    rw [strictGained.relinked.methodAt]
    exact now.strictMethods method (hereLess method isHere)
  case lossyMethods =>
    intro method isHere
    rw [lossyGained.relinked.methodAt]
    exact now.lossyMethods method (hereLess method isHere)
  case ahead =>
    intro method isHere own listed
    by_cases same : method = source
    · subst same
      exact ahead isHere own listed
    · have untouched : ∀ other, ¬ Creates file source takes own.ref other := by
        rintro other ⟨⟨allocation, allocationListed, isOwn⟩, _⟩
        obtain rfl := ref_injective isOwn
        have owned := formed.owner_of_listed .allocation (List.mem_map_of_mem listed)
        have other := formed.owner_of_listed .allocation (List.mem_map_of_mem allocationListed)
        exact same (Option.some.inj (owned.2.symm.trans other.2))
      exact (now.ahead method (hereLess method isHere) own listed).congr
        (strictGained.link_eq untouched) (lossyGained.link_eq untouched)
  case kept =>
    intro own known
    by_cases listed : own ∈ (file.methodAt source).allocations
    · exact kept own listed
    · have untouched : ∀ other, ¬ Creates file source takes own.ref other := by
        rintro other ⟨⟨allocation, allocationListed, isOwn⟩, _⟩
        obtain rfl := ref_injective isOwn
        exact listed allocationListed
      exact (now.kept own known).grow (strictGained.link_eq untouched) strictGrown.links
        lossyGrown.links

section Bodies

variable {source : Source.Handle .method} {compiled : Compiled.Handle .method}

/-- The allocations of a key are the same in a file that extends the given one. -/
theorem allocationsOf_eq {later : Source.File} (formed : file.WellFormed)
    (extended : file.Extends later) (same : later.methodAt source = file.methodAt source)
    (key : String) : State.allocationsOf later source key = State.allocationsOf file source key := by
  rw [State.allocationsOf, State.allocationsOf, same]
  apply List.filter_congr
  intro own listed
  have known := (formed.owner_of_listed .allocation (List.mem_map_of_mem listed)).1
  rw [extended.allocationAt known]

/-- The order of lines is the same in a file that extends the given one. -/
theorem inOrder_iff {later : Source.File} {compiledKind : Compiled.Kind}
    {sources : List (Source.Handle .allocation)} {others : List (Compiled.Handle compiledKind)}
    (formed : file.WellFormed) (extended : file.Extends later)
    (listed : ∀ own ∈ sources, own ∈ (file.methodAt source).allocations) :
    InOrder setting later sources others ↔ InOrder setting file sources others :=
  InOrder.of_lines fun own member => extended.startLine
    (formed.owner_of_listed .allocation (List.mem_map_of_mem (listed own member))).1

/-- The lossy run matches what the strict one matches, and then perhaps more. -/
theorem matchAllocations (now : Abreast setting.pool file here fresh strict lossy)
    (isStrict : setting.options.lossy = false) (formed : file.WellFormed)
    (poolFormed : setting.pool.WellFormed) (strictFormed : strict.file.WellFormed)
    (lossyFormed : lossy.file.WellFormed) (isHere : here source)
    (strictUnlinked : ∀ own ∈ (file.methodAt source).allocations,
      strict.file.isLinked own.ref = false)
    (lossyUnlinked : ∀ own ∈ (file.methodAt source).allocations,
      lossy.file.isLinked own.ref = false)
    (strictOpen : ∀ other ∈ (setting.pool.methodAt compiled).allocations,
      strict.isConsumed other.ref = false)
    (lossyOpen : ∀ other ∈ (setting.pool.methodAt compiled).allocations,
      lossy.isConsumed other.ref = false) :
    Abreast setting.pool file here fresh (strict.matchAllocations setting source compiled)
      (lossy.matchAllocations (setting.varied i true) source compiled) := by
  have strictMethod := now.strictMethods source isHere
  have lossyMethod := now.lossyMethods source isHere
  have strictSources := allocationsOf_eq formed now.strictExtends strictMethod
  have lossySources := allocationsOf_eq formed now.lossyExtends lossyMethod
  rw [← strictMethod] at strictUnlinked
  rw [← lossyMethod] at lossyUnlinked
  obtain ⟨strictSteps, strictSettled⟩ := @State.matchAllocations_groups setting strict source
    compiled strictFormed poolFormed strictUnlinked strictOpen
  obtain ⟨lossySteps, lossySettled⟩ := @State.matchAllocations_groups (setting.varied i true) lossy
    source compiled lossyFormed poolFormed lossyUnlinked lossyOpen
  have creates {some_setting : Setting} {state : State} (same : state.file.methodAt source =
        file.methodAt source) {own : Source.Ref} {other : Compiled.Ref}
      (permitted : ∃ key, State.AllocationsMatch some_setting state.file source compiled key own
        other) : Creates file source (fun other => other.kind = .allocation) own other := by
    obtain ⟨key, ⟨a, member, c, _, rfl, rfl⟩, _⟩ := permitted
    exact ⟨⟨a, same ▸ List.mem_of_mem_filter member, rfl⟩, rfl⟩
  have strictGained := (strictSteps.mono fun _ _ => creates strictMethod).gains
  have lossyGained := (lossySteps.mono fun _ _ => creates lossyMethod).gains
  have ahead : ∀ own ∈ (file.methodAt source).allocations,
      Ahead (strict.matchAllocations setting source compiled).file
        (lossy.matchAllocations (setting.varied i true) source compiled).file own.ref := by
    intro own listed
    constructor
    case gained =>
      intro link found
      refine .inr ((lossyGained.link_new own.ref link found).resolve_left ?_).2
      exact Source.File.not_link_of_unlinked (lossyUnlinked own (lossyMethod ▸ listed))
    case kept =>
      intro link found
      obtain ⟨key, member, sized, ordered⟩ := State.matchAllocations_even isStrict strictFormed
        poolFormed strictUnlinked strictOpen (strictMethod ▸ listed) found
      have sources : ∀ a ∈ State.allocationsOf file source key,
          a ∈ (file.methodAt source).allocations := fun a isSource => List.mem_of_mem_filter isSource
      have strictPaired := (strictSettled key).1
      have lossyPaired := (lossySettled key).1
      rw [strictSources] at member sized ordered strictPaired
      rw [lossySources] at lossyPaired
      -- Both runs pair the whole group, so they give it the same links.
      have inOrder := (inOrder_iff formed now.strictExtends sources).mp ordered
      obtain ⟨place, bound, isOwn⟩ := List.getElem_of_mem member
      have ownPlace := List.getElem?_eq_some_iff.mpr ⟨bound, isOwn⟩
      have otherPlace := List.getElem?_eq_getElem (Nat.lt_of_lt_of_eq bound sized)
      have strictLink := strictPaired sized ((inOrder_iff formed
        (now.strictExtends.trans strictGained.grows.extended) sources).mpr inOrder) place own _
        ownPlace otherPlace
      have lossyLink := lossyPaired sized ((inOrder_iff formed
        (now.lossyExtends.trans lossyGained.grows.extended) sources).mpr inOrder) place own _
        ownPlace otherPlace
      exact lossyLink.trans (strictLink.symm.trans found)
  exact now.gain formed (fun _ => id) (fun _ => id) strictGained lossyGained
    (fun other isAllocation shared => shared.1 isAllocation) (fun _ => ahead)
    fun own listed => (ahead own listed).stays

/-! ### Arrays of several dimensions -/

/-- The compiled calls for arrays are open in both runs, or in none. -/
theorem openArrayCalls (now : Abreast setting.pool file here fresh strict lossy)
    (poolFormed : setting.pool.WellFormed) (isFresh : fresh compiled) :
    strict.openArrayCalls setting compiled =
      lossy.openArrayCalls (setting.varied i true) compiled := by
  unfold State.openArrayCalls State.openOf
  rw [List.filter_filter, List.filter_filter]
  apply List.filter_congr
  intro call listed
  have shared : Shared setting.pool fresh call.ref :=
    ⟨nofun, fun _ => ⟨compiled,
      poolFormed.owningMethod_of_listed .invocation (List.mem_map_of_mem listed), isFresh⟩⟩
  rw [now.alike call.ref shared]

/-- Where the arrays that are open in the strict run are open in the lossy run as well, the same are. -/
theorem openArrays (now : Abreast setting.pool file here fresh strict lossy)
    (formed : file.WellFormed) (isHere : here source)
    (lossyOpen : ∀ own ∈ strict.openArrays source, lossy.file.isLinked own.ref = false) :
    lossy.openArrays source = strict.openArrays source := by
  have strictMethod := now.strictMethods source isHere
  unfold State.openArrays
  rw [strictMethod, now.lossyMethods source isHere]
  apply List.filter_congr
  intro own listed
  have known := (formed.owner_of_listed .allocation (List.mem_map_of_mem listed)).1
  rw [now.strictExtends.allocationAt known, now.lossyExtends.allocationAt known]
  cases linked : strict.file.isLinked own.ref with
  | true =>
      obtain ⟨link, found⟩ := Source.File.exists_link linked
      have kept := (now.ahead source isHere own listed).kept link found
      rw [Source.File.isLinked_of_link kept]
  | false =>
      by_cases several : 1 < (file.allocationAt own).dimensions
      · have isOpen : own ∈ strict.openArrays source := by
          refine State.mem_openArrays.mpr ⟨strictMethod ▸ listed, ?_, linked⟩
          rw [now.strictExtends.allocationAt known]
          exact several
        rw [lossyOpen own isOpen]
      · simp [several]

/-- An array that is open in the strict run and not in the lossy one is displaced when the strict run
matches it with a call. -/
theorem displaced (now : Abreast setting.pool file here fresh strict lossy) (isHere : here source)
    {own : Source.Handle .allocation} (isOpen : own ∈ strict.openArrays source)
    (lossyLinked : lossy.file.isLinked own.ref = true)
    (lossyKept : ∀ link, lossy.file.link? own.ref = some link →
      lossyLater.file.link? own.ref = some link)
    {call : Compiled.Handle .invocation} {id : String}
    (paired : strictLater.file.link? own.ref = some ⟨call.ref, id⟩) :
    Displaced strictLater.file lossyLater.file own := by
  obtain ⟨listed, _, unlinked⟩ := State.mem_openArrays.mp isOpen
  obtain ⟨link, found⟩ := Source.File.exists_link lossyLinked
  rw [now.strictMethods source isHere] at listed
  refine ⟨⟨_, paired, rfl⟩, link, lossyKept link found, ?_⟩
  refine ((now.ahead source isHere own listed).gained link found).resolve_left ?_
  exact Source.File.not_link_of_unlinked unlinked

/-- Both runs deal out the calls for arrays.  Where the strict run matches arrays with calls, the lossy
run does the same, unless it has linked one of these arrays before. -/
theorem matchReflectiveArrays (now : Abreast setting.pool file here fresh strict lossy)
    (formed : file.WellFormed) (poolFormed : setting.pool.WellFormed)
    (strictFormed : strict.file.WellFormed) (lossyFormed : lossy.file.WellFormed)
    (isHere : here source) (isFresh : fresh compiled)
    (hereLess : ∀ method, fewer method → here method ∧ method ≠ source)
    (freshLess : ∀ other, left other → fresh other ∧ other ≠ compiled) :
    Abreast setting.pool file fewer left
      (strict.matchReflectiveArrays setting (source, compiled))
      (lossy.matchReflectiveArrays (setting.varied i true) (source, compiled)) := by
  have strictMethod := now.strictMethods source isHere
  have lossyMethod := now.lossyMethods source isHere
  have calls := now.openArrayCalls (i := i) poolFormed isFresh
  obtain ⟨strictSteps, strictPaired⟩ := @State.matchReflectiveArrays_paired setting strict
    strictFormed poolFormed (source, compiled)
  obtain ⟨lossySteps, lossyPaired⟩ := @State.matchReflectiveArrays_paired (setting.varied i true)
    lossy lossyFormed poolFormed (source, compiled)
  let takes (other : Compiled.Ref) : Prop :=
    CreatesArray setting.pool other ∧ setting.pool.owningMethod? other = some compiled
  have creates {state : State} (same : state.file.methodAt source = file.methodAt source)
      {own : Source.Ref} {other : Compiled.Ref} (zipped : Zipped (state.openArrays source)
        (state.openArrayCalls setting compiled) own other) : Creates file source takes own other := by
    obtain ⟨a, isSource, c, isCompiled, rfl, rfl⟩ := zipped.between
    obtain ⟨compiledListed, isCall, _⟩ := State.mem_openArrayCalls.mp isCompiled
    exact ⟨⟨a, same ▸ (State.mem_openArrays.mp isSource).1, rfl⟩, ⟨rfl, isCall⟩,
      poolFormed.owningMethod_of_listed .invocation (List.mem_map_of_mem compiledListed)⟩
  have strictGained := (strictSteps.mono fun _ _ permitted => creates strictMethod permitted.2).gains
  have lossyGained := (lossySteps.mono fun _ _ permitted => creates lossyMethod permitted.2).gains
  refine now.gain formed (fun method isFewer => (hereLess method isFewer).1)
    (fun other isLeft => (freshLess other isLeft).1) strictGained lossyGained ?apart ?ahead ?kept
  case apart =>
    rintro other ⟨isCall, owned⟩ shared
    obtain ⟨holder, holderOwned, isLeft⟩ := shared.2 isCall
    exact (freshLess holder isLeft).2 (Option.some.inj (holderOwned.symm.trans owned))
  case ahead => exact fun isFewer => absurd rfl (hereLess source isFewer).2
  case kept =>
    intro own listed link found
    rcases strictSteps.gains.link_new own.ref link found with before | ⟨even, a, c, zipped, isOwn, _⟩
    · have kept := (now.ahead source isHere own listed).kept link before
      exact .inl (lossyGained.link_kept own.ref link kept)
    · obtain rfl := ref_injective isOwn
      obtain ⟨place, placed⟩ := List.mem_iff_getElem?.mp zipped
      obtain ⟨ownPlace, callPlace⟩ := List.getElem?_zip_eq_some.mp placed
      have paired := strictPaired even
      have isLink := (paired place own c ownPlace callPlace).symm.trans found
      by_cases sameOpen : ∀ other ∈ strict.openArrays source,
          lossy.file.isLinked other.ref = false
      · have arrays := now.openArrays formed isHere sameOpen
        refine .inl (Eq.trans (lossyPaired ?_ place own c (by rw [arrays]; exact ownPlace)
          (by rw [← calls]; exact callPlace)) isLink)
        have sources : ∀ other ∈ strict.openArrays source,
            other ∈ (file.methodAt source).allocations :=
          fun other isOpen => strictMethod ▸ (State.mem_openArrays.mp isOpen).1
        refine ⟨by rw [arrays, ← calls]; exact even.1, ?_⟩
        dsimp only
        rw [arrays, ← calls]
        exact (inOrder_iff formed now.lossyExtends sources).mpr
          ((inOrder_iff formed now.strictExtends sources).mp even.2)
      · -- The strict run matches all of these arrays with calls, the one of the lossy run included.
        push Not at sameOpen
        obtain ⟨other, isOpen, lossyLinked⟩ := sameOpen
        obtain ⟨otherKnown, otherOwned⟩ := formed.owner_of_listed .allocation
          (List.mem_map_of_mem (strictMethod ▸ (State.mem_openArrays.mp isOpen).1))
        refine .inr ⟨rfl, ?_, other, otherKnown, ?_, ?_⟩
        · exact congrArg (·.compiled.kind) (Option.some.inj isLink).symm
        · exact otherOwned.trans
            (formed.owner_of_listed .allocation (List.mem_map_of_mem listed)).2.symm
        · obtain ⟨otherPlace, bound, isOther⟩ := List.getElem_of_mem isOpen
          have called := List.getElem?_eq_getElem (Nat.lt_of_lt_of_eq bound even.1)
          exact now.displaced isHere isOpen (Bool.eq_true_of_not_eq_false lossyLinked)
            (lossyGained.link_kept other.ref)
            (paired otherPlace other _ (List.getElem?_eq_some_iff.mpr ⟨bound, isOther⟩) called)

end Bodies

/-! ### Stand-ins -/

/-- Both runs place stand-ins for the same elements, as far as these are open. -/
theorem fill {done lossyDone : List Source.File} {taken : Compiled.Ref → Prop}
    (now : Abreast setting.pool file noneOf noneOf strict lossy)
    (strictSound : strict.Sound setting done)
    (lossySound : lossy.Sound (setting.varied i true) lossyDone)
    (strictFills : Fills setting file taken strict strictLater)
    (lossyFills : Fills (setting.varied i true) file taken lossy lossyLater) :
    Abreast setting.pool file noneOf noneOf strictLater lossyLater := by
  have strictGrown := (strictFills.steps.grows strictSound).extended
  have lossyGrown := (lossyFills.steps.grows lossySound).extended
  constructor
  case strictExtends => exact now.strictExtends.trans strictGrown
  case lossyExtends => exact now.lossyExtends.trans lossyGrown
  case pairs => rw [strictFills.pairs, lossyFills.pairs, now.pairs]
  case links =>
    intro element known noAllocation
    rw [strictFills.links element known, lossyFills.links element known,
      now.links element known noAllocation]
  case alike =>
    intro element shared
    rw [Bool.eq_iff_iff, strictFills.consumed, lossyFills.consumed, now.alike element shared]
  case strictMethods => exact fun _ => False.elim
  case lossyMethods => exact fun _ => False.elim
  case ahead => exact fun _ => False.elim
  case kept =>
    exact fun own known => (now.kept own known).grow (strictFills.links own.ref known)
      strictGrown.links lossyGrown.links

end Abreast

end Correlate.Matching
