/-
Module: Correlate.Proofs.Matching.Fit
Purpose: Which elements matching may match.
Main exports: StatementFits, Fits, Fits.mono, Fits.known
-/
import Correlate.Matching.Allocation
import Correlate.Proofs.Compiled.WellFormed
import Correlate.Proofs.Source.Extension

namespace Correlate.Source.File

/-- The compiled type a type is linked to. -/
def linkedType? (file : File) (type : Handle .type) : Option (Compiled.Handle .type) :=
  match file.link? type with
  | some ⟨⟨.type, i⟩, _⟩ => some ⟨i⟩
  | _ => none

theorem linkedMethod_iff {file : File} {method : Handle .method}
    {compiled : Compiled.Handle .method} :
    file.linkedMethod? method = some compiled ↔
      ∃ id, file.link? method = some ⟨compiled, id⟩ := by
  unfold linkedMethod?
  constructor
  · intro linked
    split at linked
    · next i id found => exact ⟨id, Option.some.inj linked ▸ found⟩
    · cases linked
  · rintro ⟨id, found⟩
    rw [found]
    rfl

theorem linkedType_iff {file : File} {type : Handle .type} {compiled : Compiled.Handle .type} :
    file.linkedType? type = some compiled ↔ ∃ id, file.link? type = some ⟨compiled, id⟩ := by
  unfold linkedType?
  constructor
  · intro linked
    split at linked
    · next i id found => exact ⟨id, Option.some.inj linked ▸ found⟩
    · cases linked
  · rintro ⟨id, found⟩
    rw [found]
    rfl

theorem WellFormed.linkedType_known {file : File} (formed : file.WellFormed) {type : Handle .type}
    {compiled : Compiled.Handle .type} (linked : file.linkedType? type = some compiled) :
    type.index < file.types.size := by
  obtain ⟨_, found⟩ := linkedType_iff.mp linked
  exact formed.linked type (Source.File.isLinked_of_link found)

theorem WellFormed.linkedMethod_known {file : File} (formed : file.WellFormed)
    {method : Handle .method} {compiled : Compiled.Handle .method}
    (linked : file.linkedMethod? method = some compiled) : method.index < file.methods.size := by
  obtain ⟨_, found⟩ := linkedMethod_iff.mp linked
  exact formed.linked method (Source.File.isLinked_of_link found)

theorem not_linkedMethod_of_unlinked {file : File} {method : Handle .method}
    {compiled : Compiled.Handle .method} (unlinked : file.isLinked method.ref = false) :
    file.linkedMethod? method ≠ some compiled := by
  intro linked
  obtain ⟨_, found⟩ := linkedMethod_iff.mp linked
  exact not_link_of_unlinked unlinked found

theorem not_linkedType_of_unlinked {file : File} {type : Handle .type}
    {compiled : Compiled.Handle .type} (unlinked : file.isLinked type.ref = false) :
    file.linkedType? type ≠ some compiled := by
  intro linked
  obtain ⟨_, found⟩ := linkedType_iff.mp linked
  exact not_link_of_unlinked unlinked found

theorem Extends.linkedType {file later : File} (extended : file.Extends later)
    {type : Handle .type} {compiled : Compiled.Handle .type}
    (linked : file.linkedType? type = some compiled) :
    later.linkedType? type = some compiled := by
  obtain ⟨id, found⟩ := linkedType_iff.mp linked
  exact linkedType_iff.mpr ⟨id, extended.links _ _ found⟩

end Correlate.Source.File

namespace Correlate.Matching

/-!
`Fits` says of a source and a compiled element that matching may match them, given the links that
the file has already.  Types fit by name; everything else fits inside what is linked around it.
-/

/-- A variable or an element of a body fits one of a compiled method.  Stand-ins are made to fit. -/
inductive StatementFits (setting : Setting) (file : Source.File) (source : Source.Handle .method)
    (compiled : Compiled.Handle .method) : Source.Ref → Compiled.Ref → Prop where
  | receiver {own : Source.Handle .variable} {other : Compiled.Handle .variable}
      (isReceiver : (file.methodAt source).receiver = some own)
      (isCompiled : (setting.pool.methodAt compiled).receiver = some other) :
      StatementFits setting file source compiled own other
  | param {own : Source.Handle .variable} {other : Compiled.Handle .variable} {i captured : Nat}
      (isParam : (file.methodAt source).params[i]? = some own)
      (isCompiled : (setting.pool.methodAt compiled).params[i + captured]? = some other)
      (sized : (setting.pool.methodAt compiled).params.length =
        (file.methodAt source).params.length + captured) :
      StatementFits setting file source compiled own other
  | call {own : Source.Handle .invocation} {other : Compiled.Handle .invocation}
      (listed : own ∈ (file.methodAt source).invocations)
      (compiledListed : other ∈ (setting.pool.methodAt compiled).invocations)
      (named : (setting.pool.invocationAt other).name = (file.invocationAt own).name)
      (sized : (setting.pool.invocationAt other).arity = (file.invocationAt own).arity ∨
        setting.arities.isPlausible (setting.pool.invocationAt other).namingId
          (setting.pool.invocationAt other).arity (file.invocationAt own).arity = true) :
      StatementFits setting file source compiled own other
  | allocation {own : Source.Handle .allocation} {other : Compiled.Handle .allocation}
      (listed : own ∈ (file.methodAt source).allocations)
      (compiledListed : other ∈ (setting.pool.methodAt compiled).allocations)
      (keyed : compiledAllocationKey (setting.pool.allocationAt other) =
        allocationKey (file.allocationAt own)) :
      StatementFits setting file source compiled own other
  | arrayCall {own : Source.Handle .allocation} {other : Compiled.Handle .invocation}
      (listed : own ∈ (file.methodAt source).allocations)
      (compiledListed : other ∈ (setting.pool.methodAt compiled).invocations)
      (several : 1 < (file.allocationAt own).dimensions)
      (creates : (setting.pool.invocationAt other).namingId = ReservedName.reflectiveArrayFactory) :
      StatementFits setting file source compiled own other
  | access {own : Source.Handle .fieldAccess} {other : Compiled.Handle .fieldAccess}
      (listed : own ∈ (file.methodAt source).fieldAccesses)
      (compiledListed : other ∈ (setting.pool.methodAt compiled).fieldAccesses)
      (plain : (file.fieldAccessAt own).outerThis = none)
      (named : (setting.pool.fieldAccessAt other).name = (file.fieldAccessAt own).name)
      (alike : (setting.pool.fieldAccessAt other).kind = (file.fieldAccessAt own).kind) :
      StatementFits setting file source compiled own other
  | outerThis {own : Source.Handle .fieldAccess} {other : Compiled.Handle .fieldAccess}
      {qualifier : String} (listed : own ∈ (file.methodAt source).fieldAccesses)
      (compiledListed : other ∈ (setting.pool.methodAt compiled).fieldAccesses)
      (qualified : (file.fieldAccessAt own).outerThis = some qualifier)
      (reads : (setting.pool.fieldAccessAt other).kind = .read)
      (captured : ReservedName.isOuterThisField (setting.pool.fieldAccessAt other).name = true)
      (typed : (setting.pool.fieldAccessAt other).type.any
        (file.resolve (some qualifier)).contains = true) :
      StatementFits setting file source compiled own other
  | cast {own : Source.Handle .cast} {other : Compiled.Handle .cast}
      (listed : own ∈ (file.methodAt source).casts)
      (compiledListed : other ∈ (setting.pool.methodAt compiled).casts) :
      StatementFits setting file source compiled own other
  | reference {own : Source.Handle .methodRef} {other : Compiled.Handle .methodRef}
      (listed : own ∈ (file.methodAt source).methodRefs)
      (compiledListed : other ∈ (setting.pool.methodAt compiled).methodRefs)
      (named : (setting.pool.methodRefAt other).name = (file.methodRefAt own).name) :
      StatementFits setting file source compiled own other
  | standInCall {own : Source.Handle .invocation} {other : Compiled.Handle .invocation}
      (listed : own ∈ (file.methodAt source).invocations)
      (compiledListed : other ∈ (setting.pool.methodAt compiled).invocations)
      (stands : (file.invocationAt own).authoritative = false) :
      StatementFits setting file source compiled own other
  | standInAllocation {own : Source.Handle .allocation} {other : Compiled.Handle .allocation}
      (listed : own ∈ (file.methodAt source).allocations)
      (compiledListed : other ∈ (setting.pool.methodAt compiled).allocations)
      (stands : (file.allocationAt own).authoritative = false) :
      StatementFits setting file source compiled own other

/-- A match of elements of the given kinds inside two methods. -/
def FitsOfKind (setting : Setting) (file : Source.File) (source : Source.Handle .method)
    (compiled : Compiled.Handle .method) (kind : Source.Kind) (compiledKind : Compiled.Kind)
    (own : Source.Ref) (other : Compiled.Ref) : Prop :=
  own.kind = kind ∧ other.kind = compiledKind ∧
    StatementFits setting file source compiled own other

/-- An element fits a compiled element, given the links of the file. -/
inductive Fits (setting : Setting) (file : Source.File) : Source.Ref → Compiled.Ref → Prop where
  | type {own : Source.Handle .type} {other : Compiled.Handle .type}
      (known : own.index < file.types.size)
      (named : setting.pool.typeNamed? (file.typeAt own).binaryName = some other) :
      Fits setting file own other
  | field {type : Source.Handle .type} {compiledType : Compiled.Handle .type}
      {own : Source.Handle .field} {other : Compiled.Handle .field}
      (linked : file.linkedType? type = some compiledType)
      (listed : own ∈ (file.typeAt type).fields)
      (compiledListed : other ∈ (setting.pool.typeAt compiledType).fields)
      (named : (setting.pool.fieldAt other).name = (file.fieldAt own).name) :
      Fits setting file own other
  | method {type : Source.Handle .type} {compiledType : Compiled.Handle .type}
      {own : Source.Handle .method} {other : Compiled.Handle .method}
      (linked : file.linkedType? type = some compiledType)
      (listed : own ∈ (file.typeAt type).methods)
      (compiledListed : other ∈ (setting.pool.typeAt compiledType).methods)
      (noBlock : (file.methodAt own).kind ≠ .instanceInitializer)
      (denoted : (setting.pool.methodAt other).modifiers.isBridge = true →
        (setting.pool.methodAt other).id ∈ file.signatureIds type own) :
      Fits setting file own other
  | lambda {outer : Source.Handle .method} {compiled : Compiled.Handle .method}
      {place : Compiled.Handle .lambda} {own : Source.Handle .method}
      {other : Compiled.Handle .method}
      (linked : file.linkedMethod? outer = some compiled)
      (listed : own ∈ (file.methodAt outer).lambdas)
      (compiledListed : place ∈ (setting.pool.methodAt compiled).lambdas)
      (implemented : (setting.pool.lambdaAt place).implementation = some other)
      (room : (file.methodAt own).arity ≤ (setting.pool.methodAt other).arity) :
      Fits setting file own other
  | statement {source : Source.Handle .method} {compiled : Compiled.Handle .method}
      {own : Source.Ref} {other : Compiled.Ref}
      (linked : file.linkedMethod? source = some compiled)
      (fits : StatementFits setting file source compiled own other) :
      Fits setting file own other

namespace StatementFits

variable {setting : Setting} {file later : Source.File} {source : Source.Handle .method}
  {compiled : Compiled.Handle .method} {own : Source.Ref} {other : Compiled.Ref}

/-- The element is in the file and belongs to the source method. -/
theorem owner (fits : StatementFits setting file source compiled own other)
    (formed : file.WellFormed) :
    own.index < file.count own.kind ∧ file.owningMethod? own = some source := by
  cases fits with
  | receiver isReceiver _ =>
      refine formed.owner_of_listed .receiver (List.mem_map_of_mem ?_)
      rw [isReceiver]
      exact List.mem_singleton_self _
  | param isParam _ _ =>
      exact formed.owner_of_listed .parameter
        (List.mem_map_of_mem (List.mem_of_getElem? isParam))
  | call listed _ _ _ => exact formed.owner_of_listed .invocation (List.mem_map_of_mem listed)
  | allocation listed _ _ =>
      exact formed.owner_of_listed .allocation (List.mem_map_of_mem listed)
  | arrayCall listed _ _ _ =>
      exact formed.owner_of_listed .allocation (List.mem_map_of_mem listed)
  | access listed _ _ _ _ =>
      exact formed.owner_of_listed .fieldAccess (List.mem_map_of_mem listed)
  | outerThis listed _ _ _ _ _ =>
      exact formed.owner_of_listed .fieldAccess (List.mem_map_of_mem listed)
  | cast listed _ => exact formed.owner_of_listed .cast (List.mem_map_of_mem listed)
  | reference listed _ _ =>
      exact formed.owner_of_listed .methodRef (List.mem_map_of_mem listed)
  | standInCall listed _ _ =>
      exact formed.owner_of_listed .invocation (List.mem_map_of_mem listed)
  | standInAllocation listed _ _ =>
      exact formed.owner_of_listed .allocation (List.mem_map_of_mem listed)

/-- The compiled element belongs to the compiled method. -/
theorem compiledOwner (fits : StatementFits setting file source compiled own other)
    (formed : setting.pool.WellFormed) : setting.pool.owningMethod? other = some compiled := by
  cases fits with
  | receiver _ isCompiled =>
      refine formed.owningMethod_of_listed .slot (List.mem_map_of_mem ?_)
      rw [isCompiled]
      exact List.mem_append_left _ (List.mem_singleton_self _)
  | param _ isCompiled _ =>
      refine formed.owningMethod_of_listed .slot (List.mem_map_of_mem ?_)
      exact List.mem_append_right _ (List.mem_of_getElem? isCompiled)
  | call _ listed _ _ =>
      exact formed.owningMethod_of_listed .invocation (List.mem_map_of_mem listed)
  | allocation _ listed _ =>
      exact formed.owningMethod_of_listed .allocation (List.mem_map_of_mem listed)
  | arrayCall _ listed _ _ =>
      exact formed.owningMethod_of_listed .invocation (List.mem_map_of_mem listed)
  | access _ listed _ _ _ =>
      exact formed.owningMethod_of_listed .fieldAccess (List.mem_map_of_mem listed)
  | outerThis _ listed _ _ _ _ =>
      exact formed.owningMethod_of_listed .fieldAccess (List.mem_map_of_mem listed)
  | cast _ listed => exact formed.owningMethod_of_listed .cast (List.mem_map_of_mem listed)
  | reference _ listed _ =>
      exact formed.owningMethod_of_listed .methodRef (List.mem_map_of_mem listed)
  | standInCall _ listed _ =>
      exact formed.owningMethod_of_listed .invocation (List.mem_map_of_mem listed)
  | standInAllocation _ listed _ =>
      exact formed.owningMethod_of_listed .allocation (List.mem_map_of_mem listed)

/-- Variables and elements of bodies are neither types nor members nor lambdas. -/
theorem kind_ne (fits : StatementFits setting file source compiled own other) :
    own.kind ≠ .type ∧ own.kind ≠ .field ∧ own.kind ≠ .method := by
  cases fits <;> exact ⟨nofun, nofun, nofun⟩

theorem compiledKind_ne (fits : StatementFits setting file source compiled own other) :
    other.kind ≠ .type ∧ other.kind ≠ .field ∧ other.kind ≠ .method := by
  cases fits <;> exact ⟨nofun, nofun, nofun⟩

/-- The links of the file do not matter. -/
theorem of_relinked (same : file.Relinked later)
    (fits : StatementFits setting later source compiled own other) :
    StatementFits setting file source compiled own other := by
  obtain ⟨_, rfl⟩ := same
  cases fits with
  | receiver isReceiver isCompiled => exact .receiver isReceiver isCompiled
  | param isParam isCompiled sized => exact .param isParam isCompiled sized
  | call listed compiledListed named sized => exact .call listed compiledListed named sized
  | allocation listed compiledListed keyed => exact .allocation listed compiledListed keyed
  | arrayCall listed compiledListed several creates =>
      exact .arrayCall listed compiledListed several creates
  | access listed compiledListed plain named alike =>
      exact .access listed compiledListed plain named alike
  | outerThis listed compiledListed qualified reads captured typed =>
      exact .outerThis listed compiledListed qualified reads captured typed
  | cast listed compiledListed => exact .cast listed compiledListed
  | reference listed compiledListed named => exact .reference listed compiledListed named
  | standInCall listed compiledListed stands => exact .standInCall listed compiledListed stands
  | standInAllocation listed compiledListed stands =>
      exact .standInAllocation listed compiledListed stands

/-- What fits in a file fits in every file that extends it. -/
theorem mono (fits : StatementFits setting file source compiled own other)
    (formed : file.WellFormed) (extended : file.Extends later) :
    StatementFits setting later source compiled own other := by
  have known := (fits.owner formed).1
  have receiver_kept := extended.readMethod Source.Method.receiver (fun _ _ _ => rfl) source
  have params_kept := extended.readMethod Source.Method.params (fun _ _ _ => rfl) source
  have accesses_kept := extended.readMethod Source.Method.fieldAccesses (fun _ _ _ => rfl) source
  have casts_kept := extended.readMethod Source.Method.casts (fun _ _ _ => rfl) source
  have references_kept := extended.readMethod Source.Method.methodRefs (fun _ _ _ => rfl) source
  cases fits with
  | receiver isReceiver isCompiled => exact .receiver (receiver_kept.trans isReceiver) isCompiled
  | param isParam isCompiled sized =>
      exact .param (by rw [params_kept]; exact isParam) isCompiled (by rw [params_kept]; exact sized)
  | call listed compiledListed named sized =>
      refine .call (extended.mem_invocations listed) compiledListed ?_ ?_ <;>
        rw [extended.invocationAt known]
      · exact named
      · exact sized
  | allocation listed compiledListed keyed =>
      refine .allocation (extended.mem_allocations listed) compiledListed ?_
      rw [extended.allocationAt known]
      exact keyed
  | arrayCall listed compiledListed several creates =>
      refine .arrayCall (extended.mem_allocations listed) compiledListed ?_ creates
      rw [extended.allocationAt known]
      exact several
  | access listed compiledListed plain named alike =>
      refine .access (by rw [accesses_kept]; exact listed) compiledListed ?_ ?_ ?_ <;>
        rw [extended.fieldAccessAt]
      · exact plain
      · exact named
      · exact alike
  | outerThis listed compiledListed qualified reads captured typed =>
      refine .outerThis (by rw [accesses_kept]; exact listed) compiledListed
        ((congrArg _ (extended.fieldAccessAt _)).trans qualified) reads captured ?_
      rw [extended.resolve]
      exact typed
  | cast listed compiledListed => exact .cast (by rw [casts_kept]; exact listed) compiledListed
  | reference listed compiledListed named =>
      refine .reference (by rw [references_kept]; exact listed) compiledListed ?_
      rw [extended.methodRefAt]
      exact named
  | standInCall listed compiledListed stands =>
      refine .standInCall (extended.mem_invocations listed) compiledListed ?_
      rw [extended.invocationAt known]
      exact stands
  | standInAllocation listed compiledListed stands =>
      refine .standInAllocation (extended.mem_allocations listed) compiledListed ?_
      rw [extended.allocationAt known]
      exact stands

end StatementFits

namespace Fits

variable {setting : Setting} {file later : Source.File} {own : Source.Ref} {other : Compiled.Ref}

theorem known (fits : Fits setting file own other) (formed : file.WellFormed) :
    own.index < file.count own.kind := by
  cases fits with
  | type known _ => exact known
  | field _ listed _ _ => exact (formed.field_of_listed listed).1
  | method _ listed _ _ _ => exact (formed.method_of_listed listed).1
  | lambda _ listed _ _ _ => exact (formed.mem_lambdas.mp listed).1
  | statement _ fits => exact (fits.owner formed).1

theorem mono (fits : Fits setting file own other) (formed : file.WellFormed)
    (extended : file.Extends later) : Fits setting later own other := by
  cases fits with
  | type known named =>
      refine .type (by rw [extended.typeCount]; exact known) ?_
      rw [extended.binaryName]
      exact named
  | field linked listed compiledListed named =>
      refine .field (extended.linkedType linked) (extended.mem_fields listed) compiledListed ?_
      rw [extended.fieldAt (formed.field_of_listed listed).1]
      exact named
  | method linked listed compiledListed noBlock denoted =>
      refine .method (extended.linkedType linked) ?_ compiledListed ?_ ?_
      · rw [extended.typeMethods]; exact listed
      · rw [extended.methodKind]; exact noBlock
      · rw [extended.signatureIds]; exact denoted
  | @lambda outer compiled _ own _ linked listed compiledListed implemented room =>
      refine .lambda (extended.linkedMethod linked) ?_ compiledListed implemented ?_
      · rw [extended.readMethod Source.Method.lambdas (fun _ _ _ => rfl)]; exact listed
      · rw [extended.readMethod Source.Method.arity (fun _ _ _ => rfl)]; exact room
  | statement linked fits =>
      exact .statement (extended.linkedMethod linked) (fits.mono formed extended)

/-- Only types fit compiled types. -/
theorem of_type {other : Compiled.Handle .type} (fits : Fits setting file own other.ref) :
    ∃ type : Source.Handle .type, own = type.ref ∧ type.index < file.types.size ∧
      setting.pool.typeNamed? (file.typeAt type).binaryName = some other := by
  generalize isOther : other.ref = element at fits
  cases fits with
  | @type type found known named =>
      obtain rfl : other = found := by
        have index := congrArg Compiled.Ref.index isOther
        exact Compiled.Handle.index_injective index
      exact ⟨type, rfl, known, named⟩
  | field | method | lambda => cases isOther
  | statement _ fits => exact absurd (congrArg Compiled.Ref.kind isOther).symm fits.compiledKind_ne.1

/-- A type fits the compiled type of its name and nothing else. -/
theorem of_ownType {type : Source.Handle .type} (fits : Fits setting file type.ref other) :
    ∃ found : Compiled.Handle .type, other = found.ref ∧
      setting.pool.typeNamed? (file.typeAt type).binaryName = some found := by
  generalize isOwn : type.ref = element at fits
  cases fits with
  | @type own found known named =>
      obtain rfl : type = own := Source.Handle.index_injective (congrArg Source.Ref.index isOwn)
      exact ⟨found, rfl, named⟩
  | field | method | lambda => cases isOwn
  | statement _ fits => exact absurd (congrArg Source.Ref.kind isOwn).symm fits.kind_ne.1

/-- A field fits fields of the compiled type of its type and nothing else. -/
theorem of_ownField {field : Source.Handle .field} (fits : Fits setting file field.ref other) :
    ∃ (type : Source.Handle .type) (compiledType : Compiled.Handle .type)
      (found : Compiled.Handle .field), other = found.ref ∧
        file.linkedType? type = some compiledType ∧ field ∈ (file.typeAt type).fields ∧
          found ∈ (setting.pool.typeAt compiledType).fields := by
  generalize isOwn : field.ref = element at fits
  cases fits with
  | @field type compiledType own found linked listed compiledListed named =>
      obtain rfl : field = own := Source.Handle.index_injective (congrArg Source.Ref.index isOwn)
      exact ⟨type, compiledType, found, rfl, linked, listed, compiledListed⟩
  | type | method | lambda => cases isOwn
  | statement _ fits => exact absurd (congrArg Source.Ref.kind isOwn).symm fits.kind_ne.2.1

/-- A method of a type fits methods of the compiled type, and a lambda the implementations of compiled
lambdas. -/
theorem of_ownMethod {method : Source.Handle .method} (fits : Fits setting file method.ref other) :
    ∃ found : Compiled.Handle .method, other = found.ref ∧
      ((∃ (type : Source.Handle .type) (compiledType : Compiled.Handle .type),
        file.linkedType? type = some compiledType ∧ method ∈ (file.typeAt type).methods ∧
          found ∈ (setting.pool.typeAt compiledType).methods) ∨
      ∃ (outer : Source.Handle .method) (compiled : Compiled.Handle .method)
        (place : Compiled.Handle .lambda),
        file.linkedMethod? outer = some compiled ∧ method ∈ (file.methodAt outer).lambdas ∧
          place ∈ (setting.pool.methodAt compiled).lambdas ∧
            (setting.pool.lambdaAt place).implementation = some found) := by
  generalize isOwn : method.ref = element at fits
  cases fits with
  | @method type compiledType own found linked listed compiledListed noBlock denoted =>
      obtain rfl : method = own := Source.Handle.index_injective (congrArg Source.Ref.index isOwn)
      exact ⟨found, rfl, .inl ⟨type, compiledType, linked, listed, compiledListed⟩⟩
  | @lambda outer compiled place own found linked listed compiledListed implemented room =>
      obtain rfl : method = own := Source.Handle.index_injective (congrArg Source.Ref.index isOwn)
      exact ⟨found, rfl, .inr ⟨outer, compiled, place, linked, listed, compiledListed, implemented⟩⟩
  | type | field => cases isOwn
  | statement _ fits => exact absurd (congrArg Source.Ref.kind isOwn).symm fits.kind_ne.2.2

/-- A method that is no lambda fits a bridge only if its signature may denote it. -/
theorem of_bridge {method : Source.Handle .method} {bridge : Compiled.Handle .method}
    (fits : Fits setting file method.ref bridge.ref) (formed : file.WellFormed)
    (declared : (file.methodAt method).kind ≠ .lambda)
    (isBridge : (setting.pool.methodAt bridge).modifiers.isBridge = true) :
    ∃ type : Source.Handle .type, method ∈ (file.typeAt type).methods ∧
      (setting.pool.methodAt bridge).id ∈ file.signatureIds type method := by
  generalize isOwn : method.ref = element at fits
  generalize isOther : bridge.ref = compiledElement at fits
  cases fits with
  | @method type compiledType own found linked listed compiledListed noBlock denoted =>
      obtain rfl : method = own := Source.Handle.index_injective (congrArg Source.Ref.index isOwn)
      obtain rfl : bridge = found :=
        Compiled.Handle.index_injective (congrArg Compiled.Ref.index isOther)
      exact ⟨type, listed, denoted isBridge⟩
  | @lambda _ _ _ own found linked listed compiledListed implemented room =>
      obtain rfl : method = own := Source.Handle.index_injective (congrArg Source.Ref.index isOwn)
      exact absurd (formed.isLambda_of_listed listed) declared
  | type | field => cases isOwn
  | statement _ fits => exact absurd (congrArg Source.Ref.kind isOwn).symm fits.kind_ne.2.2

end Fits

end Correlate.Matching
