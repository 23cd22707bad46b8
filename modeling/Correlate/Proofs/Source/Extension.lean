/-
Module: Correlate.Proofs.Source.Extension
Purpose: What matching leaves alone in a file.
Main exports: File.Relinked, File.Extends
-/
import Correlate.Proofs.Source.Ownership
import Correlate.Source.Resolver

namespace Correlate.Source

/-- The ids of the compiled methods that the signature of a method of a type may denote. -/
def File.signatureIds (file : File) (type : Handle .type) (method : Handle .method) : List String :=
  let record := file.methodAt method
  (file.methodCandidates (file.typeAt type).binaryName record.returnType record.name
    (file.paramTypes method)).ids

/-- There are stand-ins of this kind. -/
def Kind.hasStandIns : Kind → Bool
  | .field => true
  | .invocation => true
  | .allocation => true
  | _ => false

namespace File

/-!
Most of matching only adds links.  Besides that it adds stand-ins, which are no part of the source,
and notes which types the used names denote.  `Relinked` relates two files that differ in their links
at most; `Extends` allows all three kinds of additions.
-/

theorem isLinked_of_link {file : File} {element : Ref} {link : Link}
    (found : file.link? element = some link) : file.isLinked element = true :=
  Option.isSome_iff_exists.mpr ⟨link, found⟩

theorem exists_link {file : File} {element : Ref} (linked : file.isLinked element = true) :
    ∃ link, file.link? element = some link :=
  Option.isSome_iff_exists.mp linked

/-- An element without a link has none. -/
theorem not_link_of_unlinked {file : File} {element : Ref} {link : Link}
    (unlinked : file.isLinked element = false) : file.link? element ≠ some link :=
  fun found => absurd ((isLinked_of_link found).symm.trans unlinked) nofun

/-! ### Files that differ in their links -/

/-- The files have the same elements. -/
def Relinked (file later : File) : Prop :=
  ∃ links, later = { file with links }

namespace Relinked

variable {file later final : File}

theorem refl (file : File) : file.Relinked file := ⟨file.links, rfl⟩

theorem trans (first : file.Relinked later) (second : later.Relinked final) :
    file.Relinked final := by
  obtain ⟨_, rfl⟩ := first
  obtain ⟨links, rfl⟩ := second
  exact ⟨links, rfl⟩

theorem path (same : file.Relinked later) : later.path = file.path := by
  obtain ⟨_, rfl⟩ := same; rfl

theorem count (same : file.Relinked later) (kind : Kind) : later.count kind = file.count kind := by
  obtain ⟨_, rfl⟩ := same; cases kind <;> rfl

theorem typeAt (same : file.Relinked later) (type : Handle .type) :
    later.typeAt type = file.typeAt type := by
  obtain ⟨_, rfl⟩ := same; rfl

theorem fieldAt (same : file.Relinked later) (field : Handle .field) :
    later.fieldAt field = file.fieldAt field := by
  obtain ⟨_, rfl⟩ := same; rfl

theorem methodAt (same : file.Relinked later) (method : Handle .method) :
    later.methodAt method = file.methodAt method := by
  obtain ⟨_, rfl⟩ := same; rfl

theorem invocationAt (same : file.Relinked later) (call : Handle .invocation) :
    later.invocationAt call = file.invocationAt call := by
  obtain ⟨_, rfl⟩ := same; rfl

theorem allocationAt (same : file.Relinked later) (allocation : Handle .allocation) :
    later.allocationAt allocation = file.allocationAt allocation := by
  obtain ⟨_, rfl⟩ := same; rfl

theorem fieldAccessAt (same : file.Relinked later) (access : Handle .fieldAccess) :
    later.fieldAccessAt access = file.fieldAccessAt access := by
  obtain ⟨_, rfl⟩ := same; rfl

theorem startLine (same : file.Relinked later) (element : Ref) :
    later.startLine? element = file.startLine? element := by
  obtain ⟨_, rfl⟩ := same; rfl

theorem owningMethod (same : file.Relinked later) (element : Ref) :
    later.owningMethod? element = file.owningMethod? element := by
  obtain ⟨_, rfl⟩ := same; rfl

theorem nestingDepth (same : file.Relinked later) (method : Handle .method) :
    later.nestingDepth method = file.nestingDepth method := by
  obtain ⟨links, rfl⟩ := same
  have chain (fuel : Nat) (method : Handle .method) :
      ({ file with links } : File).methodChain fuel method = file.methodChain fuel method := by
    induction fuel generalizing method with
    | zero => rfl
    | succ fuel inductionHypothesis =>
        rw [File.methodChain, File.methodChain]
        simp only [inductionHypothesis]
        rfl
  rw [File.nestingDepth, File.nestingDepth, enclosingMethods, enclosingMethods, chain]

theorem inside (same : file.Relinked later) {method : Handle .method} {element : Ref} :
    later.Inside method element ↔ file.Inside method element := by
  obtain ⟨_, rfl⟩ := same; exact Iff.rfl

theorem resolve (same : file.Relinked later) (spelling : Option String) :
    later.resolve spelling = file.resolve spelling := by
  obtain ⟨_, rfl⟩ := same; rfl

theorem paramTypes (same : file.Relinked later) (method : Handle .method) :
    later.paramTypes method = file.paramTypes method := by
  obtain ⟨_, rfl⟩ := same; rfl

theorem signatureIds (same : file.Relinked later) (type : Handle .type) (method : Handle .method) :
    later.signatureIds type method = file.signatureIds type method := by
  obtain ⟨_, rfl⟩ := same; rfl

end Relinked

/-- A file stays well-formed if its new links are those of its elements. -/
theorem WellFormed.relinked {file later : File} (formed : file.WellFormed)
    (same : file.Relinked later)
    (known : ∀ element, later.isLinked element = true → element.index < file.count element.kind) :
    later.WellFormed := by
  obtain ⟨_, rfl⟩ := same
  exact
    { formed with
      parts := fun part => by have := formed.parts part; cases part <;> exact this
      linked := fun element linked => Nat.lt_of_lt_of_eq (known element linked) (by
        cases element.kind <;> rfl) }

/-! ### Files that gain links, stand-ins and resolved names -/

/-- A table continues another one with entries that satisfy a condition. -/
def Continues {α : Type} (added : α → Prop) (table later : Array α) : Prop :=
  ∃ entries : List α, (∀ entry ∈ entries, added entry) ∧ later.toList = table.toList ++ entries

namespace Continues

variable {α : Type} {added : α → Prop} {table later final : Array α}

theorem refl (table : Array α) : Continues added table table :=
  ⟨[], nofun, (List.append_nil _).symm⟩

theorem push {entry : α} (entry_added : added entry) : Continues added table (table.push entry) :=
  ⟨[entry], by simpa using entry_added, Array.toList_push⟩

theorem trans (first : Continues added table later) (second : Continues added later final) :
    Continues added table final := by
  obtain ⟨entries, all_added, grown⟩ := first
  obtain ⟨more, more_added, again⟩ := second
  refine ⟨entries ++ more, fun entry member => ?_, by rw [again, grown, List.append_assoc]⟩
  exact (List.mem_append.mp member).elim (all_added entry) (more_added entry)

theorem size_le (continued : Continues added table later) : table.size ≤ later.size := by
  obtain ⟨entries, _, grown⟩ := continued
  have lengths := congrArg List.length grown
  rw [List.length_append, Array.length_toList, Array.length_toList] at lengths
  omega

theorem getElem?_of_lt (continued : Continues added table later) {i : Nat} (old : i < table.size) :
    later[i]? = table[i]? := by
  obtain ⟨entries, _, grown⟩ := continued
  rw [← Array.getElem?_toList, ← Array.getElem?_toList, grown,
    List.getElem?_append_left (by rwa [Array.length_toList])]

theorem of_getElem? (continued : Continues added table later) {i : Nat} (new : table.size ≤ i)
    {entry : α} (found : later[i]? = some entry) : added entry := by
  obtain ⟨entries, all_added, grown⟩ := continued
  rw [← Array.getElem?_toList, grown,
    List.getElem?_append_right (by rwa [Array.length_toList])] at found
  exact all_added entry (List.mem_of_getElem? found)

end Continues

/-- Everything in the file is in the later one, as it was.  What the later file has in addition are
links, elements that the source does not contain, and types that used names denote. -/
structure Extends (file later : File) : Prop where
  path : later.path = file.path
  package : later.package = file.package
  imports : later.imports = file.imports
  typeCount : later.types.size = file.types.size
  methodCount : later.methods.size = file.methods.size
  types : ∀ type, ∃ added, (∀ field ∈ added, file.fields.size ≤ field.index) ∧
    later.typeAt type = { file.typeAt type with fields := (file.typeAt type).fields ++ added }
  methods : ∀ method, ∃ calls allocations,
    (∀ call ∈ calls, file.invocations.size ≤ call.index) ∧
    (∀ allocation ∈ allocations, file.allocations.size ≤ allocation.index) ∧
    later.methodAt method =
      { file.methodAt method with
        invocations := (file.methodAt method).invocations ++ calls
        allocations := (file.methodAt method).allocations ++ allocations }
  fields : Continues (·.authoritative = false) file.fields later.fields
  invocations : Continues (·.authoritative = false) file.invocations later.invocations
  allocations : Continues (·.authoritative = false) file.allocations later.allocations
  fieldAccesses : later.fieldAccesses = file.fieldAccesses
  casts : later.casts = file.casts
  methodRefs : later.methodRefs = file.methodRefs
  vars : later.vars = file.vars
  stringConstants : later.stringConstants = file.stringConstants
  usageCount : later.typeUsages.size = file.typeUsages.size
  usages : ∀ usage, ∃ resolved, later.typeUsageAt usage = { file.typeUsageAt usage with resolved }
  links : ∀ element link, file.link? element = some link → later.link? element = some link

namespace Extends

variable {file later final : File}

/-- A type that stays as it is gains no fields. -/
theorem types_of_eq {type : Handle .type} (same : later.typeAt type = file.typeAt type) :
    ∃ added, (∀ field ∈ added, file.fields.size ≤ field.index) ∧
      later.typeAt type = { file.typeAt type with fields := (file.typeAt type).fields ++ added } :=
  ⟨[], List.forall_mem_nil _, by rw [List.append_nil]; exact same⟩

/-- A method that stays as it is gains no calls and no allocations. -/
theorem methods_of_eq {method : Handle .method}
    (same : later.methodAt method = file.methodAt method) :
    ∃ calls allocations,
      (∀ call ∈ calls, file.invocations.size ≤ call.index) ∧
      (∀ allocation ∈ allocations, file.allocations.size ≤ allocation.index) ∧
      later.methodAt method =
        { file.methodAt method with
          invocations := (file.methodAt method).invocations ++ calls
          allocations := (file.methodAt method).allocations ++ allocations } := by
  refine ⟨[], [], List.forall_mem_nil _, List.forall_mem_nil _, ?_⟩
  rw [List.append_nil, List.append_nil]
  exact same

/-- Only links are added. -/
theorem of_relinked (same : file.Relinked later)
    (links : ∀ element link, file.link? element = some link → later.link? element = some link) :
    file.Extends later := by
  obtain ⟨_, rfl⟩ := same
  exact
    { path := rfl
      package := rfl
      imports := rfl
      typeCount := rfl
      methodCount := rfl
      types := fun _ => types_of_eq rfl
      methods := fun _ => methods_of_eq rfl
      fields := .refl _
      invocations := .refl _
      allocations := .refl _
      fieldAccesses := rfl
      casts := rfl
      methodRefs := rfl
      vars := rfl
      stringConstants := rfl
      usageCount := rfl
      usages := fun usage => ⟨(file.typeUsageAt usage).resolved, rfl⟩
      links }

theorem refl (file : File) : file.Extends file :=
  of_relinked (.refl file) fun _ _ => id

theorem trans (first : file.Extends later) (second : later.Extends final) : file.Extends final where
  path := second.path.trans first.path
  package := second.package.trans first.package
  imports := second.imports.trans first.imports
  typeCount := second.typeCount.trans first.typeCount
  methodCount := second.methodCount.trans first.methodCount
  types type := by
    obtain ⟨added, added_new, grown⟩ := first.types type
    obtain ⟨more, more_new, again⟩ := second.types type
    refine ⟨added ++ more, fun field member => ?_, ?_⟩
    · exact (List.mem_append.mp member).elim (added_new field) fun late =>
        Nat.le_trans first.fields.size_le (more_new field late)
    · rw [again, grown, List.append_assoc]
  methods method := by
    obtain ⟨calls, created, calls_new, created_new, grown⟩ := first.methods method
    obtain ⟨moreCalls, moreCreated, moreCalls_new, moreCreated_new, again⟩ := second.methods method
    refine ⟨calls ++ moreCalls, created ++ moreCreated, fun call member => ?_,
      fun allocation member => ?_, ?_⟩
    · exact (List.mem_append.mp member).elim (calls_new call) fun late =>
        Nat.le_trans first.invocations.size_le (moreCalls_new call late)
    · exact (List.mem_append.mp member).elim (created_new allocation) fun late =>
        Nat.le_trans first.allocations.size_le (moreCreated_new allocation late)
    · rw [again, grown, List.append_assoc, List.append_assoc]
  fields := first.fields.trans second.fields
  invocations := first.invocations.trans second.invocations
  allocations := first.allocations.trans second.allocations
  fieldAccesses := second.fieldAccesses.trans first.fieldAccesses
  casts := second.casts.trans first.casts
  methodRefs := second.methodRefs.trans first.methodRefs
  vars := second.vars.trans first.vars
  stringConstants := second.stringConstants.trans first.stringConstants
  usageCount := second.usageCount.trans first.usageCount
  usages usage := by
    obtain ⟨_, grown⟩ := first.usages usage
    obtain ⟨resolved, again⟩ := second.usages usage
    exact ⟨resolved, by rw [again, grown]⟩
  links element link linked := second.links element link (first.links element link linked)

/-! #### What stays -/

variable (extended : file.Extends later)

include extended

theorem count_eq {kind : Kind} (no_standIns : kind.hasStandIns = false) :
    later.count kind = file.count kind := by
  cases kind <;> first
    | cases no_standIns; done
    | exact extended.typeCount
    | exact extended.methodCount
    | exact extended.usageCount
    | simp only [count, extended.fieldAccesses, extended.methodRefs, extended.casts, extended.vars,
        extended.stringConstants]

theorem count_le (kind : Kind) : file.count kind ≤ later.count kind := by
  cases kind
  case field => exact extended.fields.size_le
  case invocation => exact extended.invocations.size_le
  case allocation => exact extended.allocations.size_le
  all_goals exact Nat.le_of_eq (extended.count_eq rfl).symm

theorem fieldAt {field : Handle .field} (known : field.index < file.fields.size) :
    later.fieldAt field = file.fieldAt field := by
  rw [File.fieldAt, File.fieldAt, extended.fields.getElem?_of_lt known]

theorem invocationAt {call : Handle .invocation} (known : call.index < file.invocations.size) :
    later.invocationAt call = file.invocationAt call := by
  rw [File.invocationAt, File.invocationAt, extended.invocations.getElem?_of_lt known]

theorem allocationAt {allocation : Handle .allocation}
    (known : allocation.index < file.allocations.size) :
    later.allocationAt allocation = file.allocationAt allocation := by
  rw [File.allocationAt, File.allocationAt, extended.allocations.getElem?_of_lt known]

theorem fieldAccessAt (access : Handle .fieldAccess) :
    later.fieldAccessAt access = file.fieldAccessAt access := by
  rw [File.fieldAccessAt, File.fieldAccessAt, extended.fieldAccesses]

theorem variableAt (held : Handle .variable) : later.variableAt held = file.variableAt held := by
  rw [File.variableAt, File.variableAt, extended.vars]

theorem methodRefAt (reference : Handle .methodRef) :
    later.methodRefAt reference = file.methodRefAt reference := by
  rw [File.methodRefAt, File.methodRefAt, extended.methodRefs]

theorem binaryName (type : Handle .type) :
    (later.typeAt type).binaryName = (file.typeAt type).binaryName := by
  obtain ⟨_, _, same⟩ := extended.types type
  rw [same]

theorem typeMethods (type : Handle .type) :
    (later.typeAt type).methods = (file.typeAt type).methods := by
  obtain ⟨_, _, same⟩ := extended.types type
  rw [same]

theorem mem_fields {type : Handle .type} {field : Handle .field}
    (listed : field ∈ (file.typeAt type).fields) : field ∈ (later.typeAt type).fields := by
  obtain ⟨_, _, same⟩ := extended.types type
  rw [same]
  exact List.mem_append_left _ listed

/-- What a method tells stays, but for its calls and allocations. -/
theorem readMethod {α : Type} (read : Method → α)
    (ignores : ∀ record calls allocations,
      read { record with invocations := calls, allocations := allocations } = read record)
    (method : Handle .method) : read (later.methodAt method) = read (file.methodAt method) := by
  obtain ⟨_, _, _, _, same⟩ := extended.methods method
  rw [same, ignores]

theorem methodKind (method : Handle .method) :
    (later.methodAt method).kind = (file.methodAt method).kind :=
  extended.readMethod Method.kind (fun _ _ _ => rfl) method

theorem methodParent (method : Handle .method) :
    (later.methodAt method).parent = (file.methodAt method).parent :=
  extended.readMethod Method.parent (fun _ _ _ => rfl) method

theorem within {outer inner : Handle .method} (within : file.Within outer inner) :
    later.Within outer inner :=
  Relation.ReflTransGen.mono (fun _ lambda inside => (extended.methodParent lambda).trans inside)
    _ _ within

theorem mem_invocations {method : Handle .method} {call : Handle .invocation}
    (listed : call ∈ (file.methodAt method).invocations) :
    call ∈ (later.methodAt method).invocations := by
  obtain ⟨_, _, _, _, same⟩ := extended.methods method
  rw [same]
  exact List.mem_append_left _ listed

theorem mem_allocations {method : Handle .method} {allocation : Handle .allocation}
    (listed : allocation ∈ (file.methodAt method).allocations) :
    allocation ∈ (later.methodAt method).allocations := by
  obtain ⟨_, _, _, _, same⟩ := extended.methods method
  rw [same]
  exact List.mem_append_left _ listed

theorem position {element : Ref} (known : element.index < file.count element.kind) :
    later.position? element = file.position? element := by
  obtain ⟨kind, i⟩ := element
  cases kind
  case type =>
    obtain ⟨_, _, same⟩ := extended.types ⟨i⟩
    simp only [position?, same]
  case field => simp only [position?, extended.fieldAt known]
  case method => exact extended.readMethod Method.position (fun _ _ _ => rfl) ⟨i⟩
  case invocation => simp only [position?, extended.invocationAt known]
  case allocation => simp only [position?, extended.allocationAt known]
  case typeUsage =>
    obtain ⟨_, same⟩ := extended.usages ⟨i⟩
    simp only [position?, same]
  all_goals
    simp only [position?, extended.fieldAccessAt, extended.methodRefAt, castAt, extended.variableAt,
      stringConstantAt, extended.casts, extended.stringConstants]

theorem startLine {element : Ref} (known : element.index < file.count element.kind) :
    later.startLine? element = file.startLine? element := by
  rw [startLine?, startLine?, extended.position known]

theorem isAuthoritative {element : Ref} (known : element.index < file.count element.kind) :
    later.isAuthoritative element = file.isAuthoritative element := by
  obtain ⟨kind, i⟩ := element
  cases kind
  case field => simp only [File.isAuthoritative, extended.fieldAt known]
  case invocation => simp only [File.isAuthoritative, extended.invocationAt known]
  case allocation => simp only [File.isAuthoritative, extended.allocationAt known]
  all_goals rfl

/-- What the later file has in addition is no part of the source. -/
theorem known_of_authoritative {element : Ref} (known : element.index < later.count element.kind)
    (authoritative : later.isAuthoritative element = true) :
    element.index < file.count element.kind := by
  obtain ⟨kind, i⟩ := element
  by_contra new
  have added : file.count kind ≤ i := Nat.le_of_not_lt new
  have bound : i < later.count kind := known
  cases kind
  case field =>
    have stands := extended.fields.of_getElem? added (Array.getElem?_eq_getElem bound)
    simp only [File.isAuthoritative, File.fieldAt, Array.getElem?_eq_getElem bound,
      Option.getD_some, stands] at authoritative
    exact absurd authoritative Bool.false_ne_true
  case invocation =>
    have stands := extended.invocations.of_getElem? added (Array.getElem?_eq_getElem bound)
    simp only [File.isAuthoritative, File.invocationAt, Array.getElem?_eq_getElem bound,
      Option.getD_some, stands] at authoritative
    exact absurd authoritative Bool.false_ne_true
  case allocation =>
    have stands := extended.allocations.of_getElem? added (Array.getElem?_eq_getElem bound)
    simp only [File.isAuthoritative, File.allocationAt, Array.getElem?_eq_getElem bound,
      Option.getD_some, stands] at authoritative
    exact absurd authoritative Bool.false_ne_true
  all_goals exact new (Nat.lt_of_lt_of_eq bound (extended.count_eq rfl))

theorem owningMethod {element : Ref} (known : element.index < file.count element.kind) :
    later.owningMethod? element = file.owningMethod? element := by
  obtain ⟨kind, i⟩ := element
  cases kind
  case method => exact extended.methodParent ⟨i⟩
  case invocation => simp only [owningMethod?, extended.invocationAt known]
  case allocation => simp only [owningMethod?, extended.allocationAt known]
  all_goals
    simp only [owningMethod?, extended.fieldAccessAt, extended.methodRefAt, castAt, extended.variableAt,
      stringConstantAt, extended.casts, extended.stringConstants]

theorem methodChain (fuel : Nat) (method : Handle .method) :
    later.methodChain fuel method = file.methodChain fuel method := by
  induction fuel generalizing method with
  | zero => rfl
  | succ fuel inductionHypothesis =>
      rw [File.methodChain, File.methodChain, extended.methodParent]
      cases (file.methodAt method).parent with
      | none => rfl
      | some outer => simp only [inductionHypothesis]

theorem nestingDepth (method : Handle .method) :
    later.nestingDepth method = file.nestingDepth method := by
  rw [File.nestingDepth, File.nestingDepth, enclosingMethods, enclosingMethods,
    extended.methodChain]

/-- The names of the types stay. -/
theorem readTypes {α : Type} (read : TypeDecl → α)
    (ignores : ∀ record fields, read { record with fields } = read record) :
    later.types.toList.map read = file.types.toList.map read := by
  apply List.ext_getElem?
  intro i
  rw [List.getElem?_map, List.getElem?_map, Array.getElem?_toList, Array.getElem?_toList]
  by_cases known : i < file.types.size
  · obtain ⟨_, _, same⟩ := extended.types ⟨i⟩
    have laterKnown : i < later.types.size := Nat.lt_of_lt_of_eq known extended.typeCount.symm
    rw [File.typeAt, File.typeAt, Array.getElem?_eq_getElem known,
      Array.getElem?_eq_getElem laterKnown, Option.getD_some, Option.getD_some] at same
    rw [Array.getElem?_eq_getElem known, Array.getElem?_eq_getElem laterKnown, same,
      Option.map_some, Option.map_some, ignores]
  · rw [Array.getElem?_eq_none (Nat.le_of_not_lt known),
      Array.getElem?_eq_none (extended.typeCount ▸ Nat.le_of_not_lt known)]

theorem localType (name : String) : later.localType? name = file.localType? name := by
  have by_names (file : File) : file.localType? name =
      ((file.types.toList.map fun type => (type.anonymous, type.name, type.binaryName)).find?
        fun entry => !entry.1 && entry.2.1 == name).map fun entry => entry.2.2 := by
    rw [localType?, List.find?_map, Option.map_map]
    rfl
  rw [by_names, by_names, extended.readTypes _ fun _ _ => rfl]

/-- A spelling denotes what it denoted. -/
theorem resolve (spelling : Option String) : later.resolve spelling = file.resolve spelling := by
  cases spelling with
  | none => rfl
  | some spelling =>
      simp only [File.resolve, resolveElement, qualifiedNames, extended.localType,
        extended.imports, extended.package]

theorem paramTypes (method : Handle .method) : later.paramTypes method = file.paramTypes method := by
  simp only [File.paramTypes, extended.variableAt,
    extended.readMethod Method.params fun _ _ _ => rfl]

theorem signatureIds (type : Handle .type) (method : Handle .method) :
    later.signatureIds type method = file.signatureIds type method := by
  have resolves : later.resolve = file.resolve := funext extended.resolve
  simp only [File.signatureIds, methodCandidates, resolves, extended.paramTypes,
    extended.binaryName, extended.readMethod Method.returnType fun _ _ _ => rfl,
    extended.readMethod Method.name fun _ _ _ => rfl]

theorem isLinked {element : Ref} (linked : file.isLinked element = true) :
    later.isLinked element = true := by
  obtain ⟨link, found⟩ := exists_link linked
  exact isLinked_of_link (extended.links element link found)

theorem linkedMethod {method : Handle .method} {compiled : Compiled.Handle .method}
    (linked : file.linkedMethod? method = some compiled) :
    later.linkedMethod? method = some compiled := by
  unfold linkedMethod? at linked ⊢
  cases found : file.link? method with
  | none => rw [found] at linked; exact absurd linked nofun
  | some link => rw [extended.links _ link found]; rw [found] at linked; exact linked

end Extends

/-! #### What extends a file -/

theorem extends_setLink {file later : File} {element : Ref} {link : Link}
    (changed : file.setLink? element link = some later) : file.Extends later := by
  unfold setLink? at changed
  split at changed
  · cases changed
  · next unlinked =>
    obtain rfl := Option.some.inj changed
    refine .of_relinked ⟨_, rfl⟩ fun other otherLink found => ?_
    have different : element ≠ other := by
      rintro rfl
      exact unlinked (isLinked_of_link found)
    simpa [link?, Std.TreeMap.getElem?_insert, different] using found

theorem typeAt_changeType (file : File) (owner type : Handle .type)
    (change : TypeDecl → TypeDecl) :
    (file.changeType owner change).typeAt type = file.typeAt type ∨
      (file.changeType owner change).typeAt type = change (file.typeAt type) := by
  simp only [File.typeAt, changeType, Array.getElem?_modify]
  split
  · cases file.types[type.index]? with
    | none => exact .inl rfl
    | some _ => exact .inr rfl
  · exact .inl rfl

theorem methodAt_changeMethod (file : File) (holder method : Handle .method)
    (change : Method → Method) :
    (file.changeMethod holder change).methodAt method = file.methodAt method ∨
      (file.changeMethod holder change).methodAt method = change (file.methodAt method) := by
  simp only [File.methodAt, changeMethod, Array.getElem?_modify]
  split
  · cases file.methods[method.index]? with
    | none => exact .inl rfl
    | some _ => exact .inr rfl
  · exact .inl rfl

theorem extends_pushField (file : File) {field : Field} (stands : field.authoritative = false) :
    file.Extends (file.pushField field).1 where
  path := rfl
  package := rfl
  imports := rfl
  typeCount := by simp [pushField, changeType]
  methodCount := rfl
  types type := by
    obtain same | listed := typeAt_changeType { file with fields := file.fields.push field }
      field.declaring type fun record =>
        { record with fields := record.fields ++ [⟨file.fields.size⟩] }
    · exact Extends.types_of_eq same
    · exact ⟨[⟨file.fields.size⟩], by simp, listed⟩
  methods _ := Extends.methods_of_eq rfl
  fields := .push stands
  invocations := .refl _
  allocations := .refl _
  fieldAccesses := rfl
  casts := rfl
  methodRefs := rfl
  vars := rfl
  stringConstants := rfl
  usageCount := rfl
  usages usage := ⟨(file.typeUsageAt usage).resolved, rfl⟩
  links _ _ := id

theorem extends_pushInvocation (file : File) {call : Invocation}
    (stands : call.authoritative = false) : file.Extends (file.pushInvocation call).1 where
  path := rfl
  package := rfl
  imports := rfl
  typeCount := rfl
  methodCount := by simp [pushInvocation, changeMethod]
  types _ := Extends.types_of_eq rfl
  methods method := by
    obtain same | listed := methodAt_changeMethod
      { file with invocations := file.invocations.push call } call.method method fun record =>
        { record with invocations := record.invocations ++ [⟨file.invocations.size⟩] }
    · exact Extends.methods_of_eq same
    · refine ⟨[⟨file.invocations.size⟩], [], by simp, List.forall_mem_nil _, ?_⟩
      rw [List.append_nil]
      exact listed
  fields := .refl _
  invocations := .push stands
  allocations := .refl _
  fieldAccesses := rfl
  casts := rfl
  methodRefs := rfl
  vars := rfl
  stringConstants := rfl
  usageCount := rfl
  usages usage := ⟨(file.typeUsageAt usage).resolved, rfl⟩
  links _ _ := id

theorem extends_pushAllocation (file : File) {allocation : Allocation}
    (stands : allocation.authoritative = false) :
    file.Extends (file.pushAllocation allocation).1 where
  path := rfl
  package := rfl
  imports := rfl
  typeCount := rfl
  methodCount := by simp [pushAllocation, changeMethod]
  types _ := Extends.types_of_eq rfl
  methods method := by
    obtain same | listed := methodAt_changeMethod
      { file with allocations := file.allocations.push allocation } allocation.method method
      fun record => { record with allocations := record.allocations ++ [⟨file.allocations.size⟩] }
    · exact Extends.methods_of_eq same
    · refine ⟨[], [⟨file.allocations.size⟩], List.forall_mem_nil _, by simp, ?_⟩
      rw [List.append_nil]
      exact listed
  fields := .refl _
  invocations := .refl _
  allocations := .push stands
  fieldAccesses := rfl
  casts := rfl
  methodRefs := rfl
  vars := rfl
  stringConstants := rfl
  usageCount := rfl
  usages usage := ⟨(file.typeUsageAt usage).resolved, rfl⟩
  links _ _ := id

/-! ### What is added is listed -/

section Pushed

variable {file : File}

theorem fieldAt_pushField (field : Field) :
    (file.pushField field).1.fieldAt ⟨file.fields.size⟩ = field := by
  simp [pushField, changeType, File.fieldAt]

theorem mem_fields_pushField {field : Field} (known : field.declaring.index < file.types.size) :
    ⟨file.fields.size⟩ ∈ ((file.pushField field).1.typeAt field.declaring).fields := by
  simp [pushField, changeType, File.typeAt, known, Array.getElem_modify]

theorem invocationAt_pushInvocation (call : Invocation) :
    (file.pushInvocation call).1.invocationAt ⟨file.invocations.size⟩ = call := by
  simp [pushInvocation, changeMethod, File.invocationAt]

theorem mem_invocations_pushInvocation {call : Invocation}
    (known : call.method.index < file.methods.size) :
    ⟨file.invocations.size⟩ ∈ ((file.pushInvocation call).1.methodAt call.method).invocations := by
  simp [pushInvocation, changeMethod, File.methodAt, known, Array.getElem_modify]

theorem allocationAt_pushAllocation (allocation : Allocation) :
    (file.pushAllocation allocation).1.allocationAt ⟨file.allocations.size⟩ = allocation := by
  simp [pushAllocation, changeMethod, File.allocationAt]

theorem mem_allocations_pushAllocation {allocation : Allocation}
    (known : allocation.method.index < file.methods.size) :
    ⟨file.allocations.size⟩ ∈
      ((file.pushAllocation allocation).1.methodAt allocation.method).allocations := by
  simp [pushAllocation, changeMethod, File.methodAt, known, Array.getElem_modify]

end Pushed

theorem extends_resolveUsage (file : File) (usage : Handle .typeUsage) (name : String) :
    file.Extends (file.resolveUsage usage name) where
  path := rfl
  package := rfl
  imports := rfl
  typeCount := rfl
  methodCount := rfl
  types _ := Extends.types_of_eq rfl
  methods _ := Extends.methods_of_eq rfl
  fields := .refl _
  invocations := .refl _
  allocations := .refl _
  fieldAccesses := rfl
  casts := rfl
  methodRefs := rfl
  vars := rfl
  stringConstants := rfl
  usageCount := by simp [resolveUsage]
  usages other := by
    simp only [typeUsageAt, resolveUsage, Array.getElem?_modify]
    split
    · cases file.typeUsages[other.index]? with
      | none => exact ⟨none, rfl⟩
      | some record => exact ⟨some name, rfl⟩
    · exact ⟨(file.typeUsageAt other).resolved, rfl⟩
  links _ _ := id

end File

end Correlate.Source
