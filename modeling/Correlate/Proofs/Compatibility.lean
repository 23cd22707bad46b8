/-
Module: Correlate.Proofs.Compatibility
Purpose: What is matched inside two methods is alike on the two sides.
Main exports: ReservedName.isOuterThisField_iff, Compatible, run_compatible
-/
import Correlate.Proofs.Matching.Runs

namespace Correlate

/-- The names of fields that hold an enclosing instance are a fixed lead and at least one digit. -/
theorem ReservedName.isOuterThisField_iff {name : String} :
    ReservedName.isOuterThisField name = true ↔
      ∃ number : List Char, number ≠ [] ∧ (∀ digit ∈ number, digit.isDigit = true) ∧
        name.toList = ReservedName.outerThisLead.toList ++ number := by
  have digits {number : List Char} : (Text.readDigits? number).isSome = true ↔
      number ≠ [] ∧ ∀ digit ∈ number, digit.isDigit = true := by
    simp [Text.readDigits?, List.isEmpty_iff]
  unfold ReservedName.isOuterThisField
  constructor
  · intro isField
    split at isField
    · next number cut =>
      obtain ⟨present, all⟩ := digits.mp isField
      exact ⟨number, present, all, Text.dropLeading?_eq_some_iff.mp cut⟩
    · cases isField
  · rintro ⟨number, present, all, spelled⟩
    rw [Text.dropLeading?_eq_some_iff.mpr spelled]
    exact digits.mpr ⟨present, all⟩

namespace Matching

/-!
However two elements of bodies come to be matched, what is matched agrees: calls in their names, and
in their arities unless variable arity explains the difference, creations in the types they create,
accesses in the field and in reading or writing it.
-/

/-! ### What fits what -/

namespace Fits

variable {setting : Setting} {file : Source.File} {own : Source.Ref} {other : Compiled.Ref}

/-- What is neither a type nor a member nor a lambda fits inside two matched methods. -/
theorem of_statement (fits : Fits setting file own other)
    (isStatement : own.kind ≠ .type ∧ own.kind ≠ .field ∧ own.kind ≠ .method) :
    ∃ source compiled, file.linkedMethod? source = some compiled ∧
      StatementFits setting file source compiled own other := by
  obtain ⟨noType, noField, noMethod⟩ := isStatement
  cases fits with
  | type => exact absurd rfl noType
  | field => exact absurd rfl noField
  | method | lambda => exact absurd rfl noMethod
  | @statement source compiled _ _ linked fits => exact ⟨source, compiled, linked, fits⟩

/-- A lambda fits compiled methods with room for its parameters. -/
theorem of_lambda {lambda : Source.Handle .method} (formed : file.WellFormed)
    (isLambda : (file.methodAt lambda).kind = .lambda) (fits : Fits setting file lambda.ref other) :
    ∃ found : Compiled.Handle .method, other = found.ref ∧
      (file.methodAt lambda).arity ≤ (setting.pool.methodAt found).arity := by
  generalize isOwn : lambda.ref = element at fits
  cases fits with
  | @method type compiledType own found linked listed =>
      obtain rfl : lambda = own := ref_injective isOwn
      exact absurd isLambda (formed.method_of_listed listed).2.1
  | @lambda outer compiled place own found linked listed compiledListed implemented room =>
      obtain rfl : lambda = own := ref_injective isOwn
      exact ⟨found, rfl, room⟩
  | type | field => cases isOwn
  | statement _ fits => exact absurd (congrArg Source.Ref.kind isOwn).symm fits.kind_ne.2.2

end Fits

namespace StatementFits

variable {setting : Setting} {file : Source.File} {source : Source.Handle .method}
  {compiled : Compiled.Handle .method} {other : Compiled.Ref}

/-- A call of the source fits calls of the compiled method that have its name, and its arity or one
that is plausible. -/
theorem of_call {call : Source.Handle .invocation} (authoritative : file.isAuthoritative call = true)
    (fits : StatementFits setting file source compiled call.ref other) :
    ∃ found : Compiled.Handle .invocation, other = found.ref ∧
      found ∈ (setting.pool.methodAt compiled).invocations ∧
      (setting.pool.invocationAt found).name = (file.invocationAt call).name ∧
      ((setting.pool.invocationAt found).arity = (file.invocationAt call).arity ∨
        setting.arities.isPlausible (setting.pool.invocationAt found).namingId
          (setting.pool.invocationAt found).arity (file.invocationAt call).arity = true) := by
  generalize isOwn : call.ref = element at fits
  cases fits with
  | @call own found _ compiledListed named sized =>
      obtain rfl : call = own := ref_injective isOwn
      exact ⟨found, rfl, compiledListed, named, sized⟩
  | @standInCall own found _ _ stands =>
      obtain rfl : call = own := ref_injective isOwn
      exact absurd authoritative (Bool.eq_false_iff.mp stands)
  | _ => cases isOwn

/-- A creation fits creations of the same type; one of several dimensions also fits calls that create
arrays. -/
theorem of_allocation {allocation : Source.Handle .allocation}
    (authoritative : file.isAuthoritative allocation = true)
    (fits : StatementFits setting file source compiled allocation.ref other) :
    (∃ found : Compiled.Handle .allocation, other = found.ref ∧
      compiledAllocationKey (setting.pool.allocationAt found) =
        allocationKey (file.allocationAt allocation)) ∨
    1 < (file.allocationAt allocation).dimensions ∧
      ∃ found : Compiled.Handle .invocation, other = found.ref ∧
        (setting.pool.invocationAt found).namingId = ReservedName.reflectiveArrayFactory := by
  generalize isOwn : allocation.ref = element at fits
  cases fits with
  | @allocation own found _ _ keyed =>
      obtain rfl : allocation = own := ref_injective isOwn
      exact .inl ⟨found, rfl, keyed⟩
  | @arrayCall own found _ _ several creates =>
      obtain rfl : allocation = own := ref_injective isOwn
      exact .inr ⟨several, found, rfl, creates⟩
  | @standInAllocation own found _ _ stands =>
      obtain rfl : allocation = own := ref_injective isOwn
      exact absurd authoritative (Bool.eq_false_iff.mp stands)
  | _ => cases isOwn

/-- An access to a field fits accesses of its kind to a field of its name, and a read of an enclosing
instance fits reads of fields that hold one of a type its qualifier may denote. -/
theorem of_access {access : Source.Handle .fieldAccess}
    (fits : StatementFits setting file source compiled access.ref other) :
    ∃ found : Compiled.Handle .fieldAccess, other = found.ref ∧
      ((file.fieldAccessAt access).outerThis = none ∧
          (setting.pool.fieldAccessAt found).name = (file.fieldAccessAt access).name ∧
          (setting.pool.fieldAccessAt found).kind = (file.fieldAccessAt access).kind ∨
        ∃ qualifier, (file.fieldAccessAt access).outerThis = some qualifier ∧
          (setting.pool.fieldAccessAt found).kind = .read ∧
          ReservedName.isOuterThisField (setting.pool.fieldAccessAt found).name = true ∧
          ∃ type ∈ file.resolve (some qualifier),
            (setting.pool.fieldAccessAt found).type = some type) := by
  generalize isOwn : access.ref = element at fits
  cases fits with
  | @access own found _ _ plain named alike =>
      obtain rfl : access = own := ref_injective isOwn
      exact ⟨found, rfl, .inl ⟨plain, named, alike⟩⟩
  | @outerThis own found qualifier _ _ qualified reads captured typed =>
      obtain rfl : access = own := ref_injective isOwn
      obtain ⟨type, isType, resolved⟩ := (Option.any_eq_true _ _).mp typed
      exact ⟨found, rfl, .inr ⟨qualifier, qualified, reads, captured, type,
        List.contains_iff_mem.mp resolved, isType⟩⟩
  | _ => cases isOwn

theorem of_reference {reference : Source.Handle .methodRef}
    (fits : StatementFits setting file source compiled reference.ref other) :
    ∃ found : Compiled.Handle .methodRef, other = found.ref ∧
      (setting.pool.methodRefAt found).name = (file.methodRefAt reference).name := by
  generalize isOwn : reference.ref = element at fits
  cases fits with
  | @reference own found _ _ named =>
      obtain rfl : reference = own := ref_injective isOwn
      exact ⟨found, rfl, named⟩
  | _ => cases isOwn

theorem of_cast {conversion : Source.Handle .cast}
    (fits : StatementFits setting file source compiled conversion.ref other) :
    ∃ found : Compiled.Handle .cast, other = found.ref := by
  generalize isOwn : conversion.ref = element at fits
  cases fits with
  | @cast own found _ _ => exact ⟨found, rfl⟩
  | _ => cases isOwn

/-- A parameter fits the compiled parameter at its place, counted after the captured values. -/
theorem of_param {holder : Source.Handle .method} {own : Source.Handle .variable} {i : Nat}
    (formed : file.WellFormed) (isParam : (file.methodAt holder).params[i]? = some own)
    (fits : StatementFits setting file source compiled own.ref other) :
    source = holder ∧
      (file.methodAt source).params.length ≤ (setting.pool.methodAt compiled).params.length ∧
      ∃ found : Compiled.Handle .variable, other = found.ref ∧
        (setting.pool.methodAt compiled).params[i +
          ((setting.pool.methodAt compiled).params.length -
            (file.methodAt source).params.length)]? = some found := by
  have owned := (formed.owner_of_listed .parameter
    (List.mem_map_of_mem (List.mem_of_getElem? isParam))).2
  obtain rfl := Option.some.inj ((fits.owner formed).2.symm.trans owned)
  have apart := List.nodup_append.mp (formed.variables_nodup source)
  refine ⟨rfl, ?_⟩
  generalize isOwn : own.ref = element at fits
  cases fits with
  | @receiver slot _ isReceiver _ =>
      obtain rfl : own = slot := ref_injective isOwn
      exact absurd rfl (apart.2.2 own (Option.mem_toList.mpr isReceiver) own
        (List.mem_of_getElem? isParam))
  | @param slot found j captured isOther isCompiled sized =>
      obtain rfl : own = slot := ref_injective isOwn
      obtain ⟨bound, _⟩ := List.getElem?_eq_some_iff.mp isParam
      obtain rfl : i = j :=
        (List.getElem?_inj bound apart.2.1).mp (isParam.trans isOther.symm)
      refine ⟨by omega, found, rfl, ?_⟩
      rw [sized, Nat.add_sub_cancel_left]
      exact isCompiled
  | _ => cases isOwn

end StatementFits

/-! ### Whole runs -/

/-- What is linked inside the methods of a file is linked to what it agrees with. -/
structure Compatible (plan : Plan) (file : Source.File) : Prop where
  calls : ∀ (call : Source.Handle .invocation) (link : Source.Link), file.link? call = some link →
    file.isAuthoritative call = true →
      ∃ other : Compiled.Handle .invocation, link.compiled = other.ref ∧
        (plan.pool.invocationAt other).name = (file.invocationAt call).name ∧
        ((plan.pool.invocationAt other).arity = (file.invocationAt call).arity ∨
          plan.arities.isPlausible (plan.pool.invocationAt other).namingId
            (plan.pool.invocationAt other).arity (file.invocationAt call).arity = true)
  allocations : ∀ (allocation : Source.Handle .allocation) (link : Source.Link),
    file.link? allocation = some link → file.isAuthoritative allocation = true →
      (∃ other : Compiled.Handle .allocation, link.compiled = other.ref ∧
        compiledAllocationKey (plan.pool.allocationAt other) =
          allocationKey (file.allocationAt allocation)) ∨
      1 < (file.allocationAt allocation).dimensions ∧
        ∃ other : Compiled.Handle .invocation, link.compiled = other.ref ∧
          (plan.pool.invocationAt other).namingId = ReservedName.reflectiveArrayFactory
  accesses : ∀ (access : Source.Handle .fieldAccess) (link : Source.Link),
    file.link? access = some link → (file.fieldAccessAt access).outerThis = none →
      ∃ other : Compiled.Handle .fieldAccess, link.compiled = other.ref ∧
        (plan.pool.fieldAccessAt other).name = (file.fieldAccessAt access).name ∧
        (plan.pool.fieldAccessAt other).kind = (file.fieldAccessAt access).kind
  outerThis : ∀ (access : Source.Handle .fieldAccess) (link : Source.Link) (qualifier : String),
    file.link? access = some link → (file.fieldAccessAt access).outerThis = some qualifier →
      ∃ other : Compiled.Handle .fieldAccess, link.compiled = other.ref ∧
        (plan.pool.fieldAccessAt other).kind = .read ∧
        (∃ number : List Char, number ≠ [] ∧ (∀ digit ∈ number, digit.isDigit = true) ∧
          (plan.pool.fieldAccessAt other).name.toList =
            ReservedName.outerThisLead.toList ++ number) ∧
        ∃ type ∈ file.resolve (some qualifier),
          (plan.pool.fieldAccessAt other).type = some type
  references : ∀ (reference : Source.Handle .methodRef) (link : Source.Link),
    file.link? reference = some link →
      ∃ other : Compiled.Handle .methodRef, link.compiled = other.ref ∧
        (plan.pool.methodRefAt other).name = (file.methodRefAt reference).name
  casts : ∀ (conversion : Source.Handle .cast) (link : Source.Link),
    file.link? conversion = some link →
      ∃ other : Compiled.Handle .cast, link.compiled = other.ref
  lambdas : ∀ (lambda : Source.Handle .method) (link : Source.Link),
    file.link? lambda = some link → (file.methodAt lambda).kind = .lambda →
      ∃ other : Compiled.Handle .method, link.compiled = other.ref ∧
        (file.methodAt lambda).arity ≤ (plan.pool.methodAt other).arity
  params : ∀ (source : Source.Handle .method) (i : Nat) (own : Source.Handle .variable)
    (link : Source.Link), (file.methodAt source).params[i]? = some own →
    file.link? own = some link →
      ∃ (compiled : Compiled.Handle .method) (other : Compiled.Handle .variable),
        file.linkedMethod? source = some compiled ∧ link.compiled = other.ref ∧
          (file.methodAt source).params.length ≤ (plan.pool.methodAt compiled).params.length ∧
          (plan.pool.methodAt compiled).params[i +
            ((plan.pool.methodAt compiled).params.length -
              (file.methodAt source).params.length)]? = some other

variable {plan : Plan} {files : List Source.File}

theorem Fitted.compatible {i : Nat} {file : Source.File} (fitted : Fitted (plan.setting i) file) :
    Compatible plan file where
  calls call link found authoritative := by
    obtain ⟨_, _, _, fits⟩ := (fitted.fits call link found).of_statement ⟨nofun, nofun, nofun⟩
    obtain ⟨other, same, _, agreed⟩ := fits.of_call authoritative
    exact ⟨other, same, agreed⟩
  allocations allocation link found authoritative := by
    obtain ⟨_, _, _, fits⟩ := (fitted.fits allocation link found).of_statement ⟨nofun, nofun, nofun⟩
    rcases fits.of_allocation authoritative with ⟨other, same, keyed⟩ | ⟨several, other, same, creates⟩
    · exact .inl ⟨other, same, keyed⟩
    · exact .inr ⟨several, other, same, creates⟩
  accesses access link found plain := by
    obtain ⟨_, _, _, fits⟩ := (fitted.fits access link found).of_statement ⟨nofun, nofun, nofun⟩
    obtain ⟨other, same, ⟨_, agreed⟩ | ⟨_, qualified, _⟩⟩ := fits.of_access
    · exact ⟨other, same, agreed⟩
    · cases plain.symm.trans qualified
  outerThis access link qualifier found qualified := by
    obtain ⟨_, _, _, fits⟩ := (fitted.fits access link found).of_statement ⟨nofun, nofun, nofun⟩
    obtain ⟨other, same, ⟨plain, _⟩ | ⟨_, isQualifier, reads, captured, typed⟩⟩ := fits.of_access
    · cases plain.symm.trans qualified
    · obtain rfl := Option.some.inj (isQualifier.symm.trans qualified)
      exact ⟨other, same, reads, ReservedName.isOuterThisField_iff.mp captured, typed⟩
  references reference link found := by
    obtain ⟨_, _, _, fits⟩ := (fitted.fits reference link found).of_statement ⟨nofun, nofun, nofun⟩
    exact fits.of_reference
  casts conversion link found := by
    obtain ⟨_, _, _, fits⟩ := (fitted.fits conversion link found).of_statement ⟨nofun, nofun, nofun⟩
    exact fits.of_cast
  lambdas lambda link found isLambda := (fitted.fits lambda link found).of_lambda fitted.formed isLambda
  params source i own link isParam found := by
    obtain ⟨_, compiled, linked, fits⟩ :=
      (fitted.fits own link found).of_statement ⟨nofun, nofun, nofun⟩
    obtain ⟨rfl, room, other, same, isOther⟩ := fits.of_param fitted.formed isParam
    exact ⟨compiled, other, linked, same, room, isOther⟩

/-- Every run links what is inside methods to what it agrees with. -/
theorem run_compatible (built : plan.pool.IsBuilt) (reachable : ∀ file ∈ files, file.Reachable)
    (unlinked : ∀ file ∈ files, ∀ element, file.isLinked element = false) :
    ∀ file ∈ (run plan files).files, Compatible plan file :=
  fun file member => ((run_sound built reachable unlinked).fitted 0 file member).compatible

theorem run_compatible_sample : Compatible samplePlan sampleResult ∧
    (sampleResult.link? (⟨0⟩ : Source.Handle .invocation)).isSome = true :=
  ⟨run_compatible samplePlan_isBuilt sampleFile_reachable sampleFile_unlinked sampleResult
    sampleResult_mem, by decide +kernel⟩

end Matching

end Correlate
