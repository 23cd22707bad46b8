/-
Module: Correlate.Proofs.Source.Preservation
Purpose: What a file keeps, and where what is added to it may stand.
Main exports: File.AddedIn, File.Preserves
-/
import Correlate.Proofs.Source.Extension

namespace Correlate.Source.File

/-!
`Extends` says that nothing is lost.  `Preserves` says besides that what the lists of a file gain are
stand-ins, and that a used name is only resolved where it is used in a linked type.
-/

/-- The element is in the later file only, and is no part of the source. -/
def AddedIn (file later : File) (element : Ref) : Prop :=
  file.count element.kind ≤ element.index ∧ element.index < later.count element.kind ∧
    later.isAuthoritative element = false

namespace AddedIn

variable {file later final : File} {element : Ref}

theorem of_later (added : file.AddedIn later element) (extended : later.Extends final) :
    file.AddedIn final element := by
  obtain ⟨fresh, known, standsIn⟩ := added
  refine ⟨fresh, Nat.lt_of_lt_of_le known (extended.count_le element.kind), ?_⟩
  rw [extended.isAuthoritative known]
  exact standsIn

theorem of_earlier (added : later.AddedIn final element) (extended : file.Extends later) :
    file.AddedIn final element :=
  ⟨Nat.le_trans (extended.count_le element.kind) added.1, added.2⟩

end AddedIn

/-- Whatever a list has after its old entries was added. -/
def TailAdded {kind : Kind} (file later : File) (before after : List (Handle kind)) : Prop :=
  ∀ standIns, after = before ++ standIns → ∀ element ∈ standIns, file.AddedIn later element.ref

namespace TailAdded

variable {file later final : File} {kind : Kind} {before middle after : List (Handle kind)}

theorem of_eq (same : after = before) : TailAdded file later before after := by
  rintro standIns grown element member
  rw [List.self_eq_append_right.mp (same.symm.trans grown)] at member
  cases member

theorem singleton {element : Handle kind} (grown : after = before ++ [element])
    (added : file.AddedIn later element.ref) : TailAdded file later before after := by
  rintro standIns regrown other member
  obtain rfl := List.append_cancel_left (grown.symm.trans regrown)
  obtain rfl := List.mem_singleton.mp member
  exact added

theorem trans (first : TailAdded file later before middle)
    (second : TailAdded later final middle after) (earlier : file.Extends later)
    (next : later.Extends final) (grown : before <+: middle) (regrown : middle <+: after) :
    TailAdded file final before after := by
  obtain ⟨early, rfl⟩ := grown
  obtain ⟨late, rfl⟩ := regrown
  intro standIns split element member
  rw [List.append_assoc] at split
  obtain rfl := List.append_cancel_left split
  rcases List.mem_append.mp member with isEarly | isLate
  · exact (first early rfl element isEarly).of_later next
  · exact (second late rfl element isLate).of_earlier earlier

end TailAdded

/-- Everything in the file is in the later one, as it was.  Types gain fields and methods gain calls and
allocations, all of them stand-ins, and names used in linked types are resolved. -/
structure Preserves (file later : File) : Prop extends file.Extends later where
  lambdaCount : later.lambdaCount = file.lambdaCount
  fieldsAdded : ∀ type, TailAdded file later (file.typeAt type).fields (later.typeAt type).fields
  callsAdded : ∀ method,
    TailAdded file later (file.methodAt method).invocations (later.methodAt method).invocations
  allocationsAdded : ∀ method,
    TailAdded file later (file.methodAt method).allocations (later.methodAt method).allocations
  resolved : ∀ usage, later.typeUsageAt usage = file.typeUsageAt usage ∨
    ∃ type name, usage ∈ (file.typeAt type).typeUsages ∧ later.isLinked type.ref = true ∧
      later.typeUsageAt usage = { file.typeUsageAt usage with resolved := some name }

namespace Extends

variable {file later : File}

theorem fields_grown (extended : file.Extends later) (type : Handle .type) :
    (file.typeAt type).fields <+: (later.typeAt type).fields := by
  obtain ⟨_, _, same⟩ := extended.types type
  rw [same]
  exact List.prefix_append _ _

theorem invocations_grown (extended : file.Extends later) (method : Handle .method) :
    (file.methodAt method).invocations <+: (later.methodAt method).invocations := by
  obtain ⟨_, _, _, _, same⟩ := extended.methods method
  rw [same]
  exact List.prefix_append _ _

theorem allocations_grown (extended : file.Extends later) (method : Handle .method) :
    (file.methodAt method).allocations <+: (later.methodAt method).allocations := by
  obtain ⟨_, _, _, _, same⟩ := extended.methods method
  rw [same]
  exact List.prefix_append _ _

theorem typeUsages (extended : file.Extends later) (type : Handle .type) :
    (later.typeAt type).typeUsages = (file.typeAt type).typeUsages := by
  obtain ⟨_, _, same⟩ := extended.types type
  rw [same]

end Extends

namespace Preserves

variable {file later final : File}

/-- Only links are added. -/
theorem of_relinked (same : file.Relinked later)
    (links : ∀ element link, file.link? element = some link → later.link? element = some link) :
    file.Preserves later where
  toExtends := .of_relinked same links
  lambdaCount := by obtain ⟨_, rfl⟩ := same; rfl
  fieldsAdded type := .of_eq (by rw [same.typeAt])
  callsAdded method := .of_eq (by rw [same.methodAt])
  allocationsAdded method := .of_eq (by rw [same.methodAt])
  resolved usage := .inl (by obtain ⟨_, rfl⟩ := same; rfl)

theorem refl (file : File) : file.Preserves file :=
  of_relinked (.refl file) fun _ _ => id

theorem trans (first : file.Preserves later) (second : later.Preserves final) :
    file.Preserves final where
  toExtends := first.toExtends.trans second.toExtends
  lambdaCount := second.lambdaCount.trans first.lambdaCount
  fieldsAdded type := (first.fieldsAdded type).trans (second.fieldsAdded type) first.toExtends
    second.toExtends (first.fields_grown type) (second.fields_grown type)
  callsAdded method := (first.callsAdded method).trans (second.callsAdded method) first.toExtends
    second.toExtends (first.invocations_grown method) (second.invocations_grown method)
  allocationsAdded method := (first.allocationsAdded method).trans (second.allocationsAdded method)
    first.toExtends second.toExtends (first.allocations_grown method)
    (second.allocations_grown method)
  resolved usage := by
    rcases second.resolved usage with same | ⟨type, name, listed, linked, changed⟩
    · rw [same]
      refine (first.resolved usage).imp_right ?_
      rintro ⟨type, name, listed, linked, changed⟩
      exact ⟨type, name, listed, second.isLinked linked, changed⟩
    · refine .inr ⟨type, name, first.typeUsages type ▸ listed, linked, ?_⟩
      rcases first.resolved usage with same | ⟨_, _, _, _, before⟩
      · rw [changed, same]
      · rw [changed, before]

end Preserves

/-! ### What preserves a file -/

/-- What a change does not look at stays. -/
theorem read_changeMethod {α : Type} (file : File) (holder : Handle .method)
    (change : Method → Method) (read : Method → α)
    (ignores : ∀ record, read (change record) = read record) (method : Handle .method) :
    read ((file.changeMethod holder change).methodAt method) = read (file.methodAt method) := by
  obtain same | changed := methodAt_changeMethod file holder method change
  · rw [same]
  · rw [changed, ignores]

theorem preserves_pushField (file : File) {field : Field} (stands : field.authoritative = false) :
    file.Preserves (file.pushField field).1 where
  toExtends := extends_pushField file stands
  lambdaCount := rfl
  fieldsAdded type := by
    have added : file.AddedIn (file.pushField field).1 ⟨.field, file.fields.size⟩ := by
      refine ⟨Nat.le_refl _, ?_, ?_⟩
      · simp [count, pushField, changeType]
      · exact (congrArg Field.authoritative (fieldAt_pushField field)).trans stands
    obtain same | grown := typeAt_changeType { file with fields := file.fields.push field }
      field.declaring type fun record =>
        { record with fields := record.fields ++ [⟨file.fields.size⟩] }
    · exact .of_eq (congrArg TypeDecl.fields same)
    · exact .singleton (congrArg TypeDecl.fields grown) added
  callsAdded _ := .of_eq rfl
  allocationsAdded _ := .of_eq rfl
  resolved _ := .inl rfl

theorem preserves_pushInvocation (file : File) {call : Invocation}
    (stands : call.authoritative = false) : file.Preserves (file.pushInvocation call).1 where
  toExtends := extends_pushInvocation file stands
  lambdaCount := rfl
  fieldsAdded _ := .of_eq rfl
  callsAdded method := by
    have added : file.AddedIn (file.pushInvocation call).1 ⟨.invocation, file.invocations.size⟩ := by
      refine ⟨Nat.le_refl _, ?_, ?_⟩
      · simp [count, pushInvocation, changeMethod]
      · exact (congrArg Invocation.authoritative (invocationAt_pushInvocation call)).trans stands
    obtain same | grown := methodAt_changeMethod
      { file with invocations := file.invocations.push call } call.method method fun record =>
        { record with invocations := record.invocations ++ [⟨file.invocations.size⟩] }
    · exact .of_eq (congrArg Method.invocations same)
    · exact .singleton (congrArg Method.invocations grown) added
  allocationsAdded method := .of_eq
    (read_changeMethod { file with invocations := file.invocations.push call } call.method
      (fun record => { record with invocations := record.invocations ++ [⟨file.invocations.size⟩] })
      Method.allocations (fun _ => rfl) method)
  resolved _ := .inl rfl

theorem preserves_pushAllocation (file : File) {allocation : Allocation}
    (stands : allocation.authoritative = false) :
    file.Preserves (file.pushAllocation allocation).1 where
  toExtends := extends_pushAllocation file stands
  lambdaCount := rfl
  fieldsAdded _ := .of_eq rfl
  callsAdded method := .of_eq
    (read_changeMethod { file with allocations := file.allocations.push allocation }
      allocation.method
      (fun record => { record with allocations := record.allocations ++ [⟨file.allocations.size⟩] })
      Method.invocations (fun _ => rfl) method)
  allocationsAdded method := by
    have added :
        file.AddedIn (file.pushAllocation allocation).1 ⟨.allocation, file.allocations.size⟩ := by
      refine ⟨Nat.le_refl _, ?_, ?_⟩
      · simp [count, pushAllocation, changeMethod]
      · exact (congrArg Allocation.authoritative (allocationAt_pushAllocation allocation)).trans
          stands
    obtain same | grown := methodAt_changeMethod
      { file with allocations := file.allocations.push allocation } allocation.method method
      fun record => { record with allocations := record.allocations ++ [⟨file.allocations.size⟩] }
    · exact .of_eq (congrArg Method.allocations same)
    · exact .singleton (congrArg Method.allocations grown) added
  resolved _ := .inl rfl

/-- A name that is used in a linked type is resolved. -/
theorem preserves_resolveUsage {file : File} {type : Handle .type} {usage : Handle .typeUsage}
    (listed : usage ∈ (file.typeAt type).typeUsages) (linked : file.isLinked type.ref = true)
    (name : String) : file.Preserves (file.resolveUsage usage name) where
  toExtends := extends_resolveUsage file usage name
  lambdaCount := rfl
  fieldsAdded _ := .of_eq rfl
  callsAdded _ := .of_eq rfl
  allocationsAdded _ := .of_eq rfl
  resolved other := by
    simp only [typeUsageAt, resolveUsage, Array.getElem?_modify]
    split
    · next same =>
      obtain rfl := Handle.index_injective same
      cases file.typeUsages[usage.index]? with
      | none => exact .inl rfl
      | some record => exact .inr ⟨type, name, listed, linked, rfl⟩
    · exact .inl rfl

end Correlate.Source.File
