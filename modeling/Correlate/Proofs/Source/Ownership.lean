/-
Module: Correlate.Proofs.Source.Ownership
Purpose: Which element of a file contains which.
Main exports: File.owningMethod?, File.Holds, File.nestingDepth, File.authoritative_of_entries,
  File.WellFormed.owner_of_listed, File.WellFormed.listed_of_owner
-/
import Mathlib.Logic.Relation
import Correlate.Proofs.Source.WellFormed

namespace Correlate.Source

namespace File

/-- The method that holds a lambda, a variable or an element of a body. -/
def owningMethod? (file : File) (element : Ref) : Option (Handle .method) :=
  match element with
  | ⟨.type, _⟩ => none
  | ⟨.field, _⟩ => none
  | ⟨.method, i⟩ => (file.methodAt ⟨i⟩).parent
  | ⟨.invocation, i⟩ => some (file.invocationAt ⟨i⟩).method
  | ⟨.allocation, i⟩ => some (file.allocationAt ⟨i⟩).method
  | ⟨.fieldAccess, i⟩ => some (file.fieldAccessAt ⟨i⟩).method
  | ⟨.methodRef, i⟩ => some (file.methodRefAt ⟨i⟩).method
  | ⟨.cast, i⟩ => some (file.castAt ⟨i⟩).method
  | ⟨.variable, i⟩ => some (file.variableAt ⟨i⟩).method
  | ⟨.stringConstant, i⟩ => some (file.stringConstantAt ⟨i⟩).method
  | ⟨.typeUsage, _⟩ => none

/-- The type that declares a field, a method that is no lambda, or a use of a name. -/
def declaringType? (file : File) (element : Ref) : Option (Handle .type) :=
  match element with
  | ⟨.field, i⟩ => some (file.fieldAt ⟨i⟩).declaring
  | ⟨.method, i⟩ =>
      if (file.methodAt ⟨i⟩).parent.isSome then none else some (file.methodAt ⟨i⟩).declaring
  | ⟨.typeUsage, i⟩ => some (file.typeUsageAt ⟨i⟩).declaring
  | _ => none

/-- An element directly contains another: a type its members, a method its lambdas, its variables and
the elements of its body.  Nested types are types of their own. -/
def Holds (file : File) (outer inner : Ref) : Prop :=
  (∃ type, outer = Handle.ref type ∧ file.declaringType? inner = some type) ∨
    ∃ method, outer = Handle.ref method ∧ file.owningMethod? inner = some method

/-- How many lambdas a method is inside of, itself included if it is one. -/
def nestingDepth (file : File) (method : Handle .method) : Nat :=
  (file.enclosingMethods method).length - 1

/-- A method is another one or a lambda somewhere inside it. -/
def Within (file : File) : Handle .method → Handle .method → Prop :=
  Relation.ReflTransGen fun outer inner => (file.methodAt inner).parent = some outer

/-- An element is in the body of a method or in that of a lambda somewhere inside it. -/
def Inside (file : File) (method : Handle .method) (element : Ref) : Prop :=
  ∃ holder, file.owningMethod? element = some holder ∧ file.Within method holder

/-- Only fields, calls and allocations may be stand-ins. -/
theorem authoritative_of_entries {file : File}
    (fields : ∀ field ∈ file.fields, field.authoritative = true)
    (invocations : ∀ call ∈ file.invocations, call.authoritative = true)
    (allocations : ∀ allocation ∈ file.allocations, allocation.authoritative = true) (element : Ref)
    (known : element.index < file.count element.kind) : file.isAuthoritative element = true := by
  obtain ⟨kind, i⟩ := element
  cases kind
  case field =>
    have found := Array.getElem?_eq_getElem (show i < file.fields.size from known)
    rw [isAuthoritative, fieldAt, found, Option.getD_some]
    exact fields _ (Array.getElem_mem _)
  case invocation =>
    have found := Array.getElem?_eq_getElem (show i < file.invocations.size from known)
    rw [isAuthoritative, invocationAt, found, Option.getD_some]
    exact invocations _ (Array.getElem_mem _)
  case allocation =>
    have found := Array.getElem?_eq_getElem (show i < file.allocations.size from known)
    rw [isAuthoritative, allocationAt, found, Option.getD_some]
    exact allocations _ (Array.getElem_mem _)
  all_goals rfl

end File

/-! ### What the lists of a well-formed file say -/

theorem Method.owner_eq_iff {method : Method} {type : Handle .type} :
    method.owner = some type.index ↔ method.kind ≠ .lambda ∧ method.declaring = type := by
  rw [Method.owner]
  split
  · next isLambda => simp [isLambda]
  · next declared => simp [declared, Handle.index_injective.eq_iff]

namespace File.WellFormed

variable {file : File}

theorem field_of_listed (formed : file.WellFormed) {type : Handle .type} {field : Handle .field}
    (listed : field ∈ (file.typeAt type).fields) :
    field.index < file.fields.size ∧ (file.fieldAt field).declaring = type := by
  have place : field.index ∈ (file.typeAt type).fields.map Handle.index :=
    List.mem_map_of_mem listed
  obtain ⟨entry, found, owned⟩ := (formed.fields.mem_getD_iff rfl).mp place
  refine ⟨(Array.getElem?_eq_some_iff.mp found).1, ?_⟩
  rw [File.fieldAt, found]
  exact Handle.index_injective (Option.some.inj owned)

theorem method_of_listed (formed : file.WellFormed) {type : Handle .type} {method : Handle .method}
    (listed : method ∈ (file.typeAt type).methods) :
    method.index < file.methods.size ∧ (file.methodAt method).kind ≠ .lambda ∧
      (file.methodAt method).declaring = type := by
  have place : method.index ∈ (file.typeAt type).methods.map Handle.index :=
    List.mem_map_of_mem listed
  obtain ⟨entry, found, owned⟩ := (formed.methods.mem_getD_iff rfl).mp place
  refine ⟨(Array.getElem?_eq_some_iff.mp found).1, ?_⟩
  rw [File.methodAt, found, Option.getD_some]
  unfold Method.owner at owned
  split at owned
  · cases owned
  · next declared => exact ⟨declared, Handle.index_injective (Option.some.inj owned)⟩

theorem listed_of_method (formed : file.WellFormed) {method : Handle .method}
    (known : method.index < file.methods.size) (declared : (file.methodAt method).kind ≠ .lambda) :
    method ∈ (file.typeAt (file.methodAt method).declaring).methods := by
  have found : file.methods[method.index]? = some (file.methodAt method) := by
    rw [File.methodAt, Array.getElem?_eq_getElem known, Option.getD_some]
  have place : method.index ∈
      (file.typeAt (file.methodAt method).declaring).methods.map Handle.index :=
    (formed.methods.mem_getD_iff rfl).mpr ⟨_, found, by rw [Method.owner, if_neg declared]⟩
  obtain ⟨other, listed, same⟩ := List.mem_map.mp place
  exact Handle.index_injective same ▸ listed

theorem methods_nodup (formed : file.WellFormed) (type : Handle .type) :
    (file.typeAt type).methods.Nodup :=
  (formed.methods.nodup_getD rfl type.index).of_map _

theorem fields_nodup (formed : file.WellFormed) (type : Handle .type) :
    (file.typeAt type).fields.Nodup :=
  (formed.fields.nodup_getD rfl type.index).of_map _

/-- A method lists exactly the lambdas that are directly inside it. -/
theorem mem_lambdas (formed : file.WellFormed) {outer lambda : Handle .method} :
    lambda ∈ (file.methodAt outer).lambdas ↔
      lambda.index < file.methods.size ∧ (file.methodAt lambda).parent = some outer := by
  have place : lambda ∈ (file.methodAt outer).lambdas ↔
      lambda.index ∈ (file.methodAt outer).lambdas.map Handle.index := by
    refine ⟨List.mem_map_of_mem, fun listed => ?_⟩
    obtain ⟨other, otherListed, same⟩ := List.mem_map.mp listed
    exact Handle.index_injective same ▸ otherListed
  refine place.trans ((formed.lambdas.mem_getD_iff rfl).trans ⟨?_, ?_⟩)
  · rintro ⟨entry, found, owned⟩
    obtain ⟨other, inside, same⟩ := Option.map_eq_some_iff.mp owned
    refine ⟨(Array.getElem?_eq_some_iff.mp found).1, ?_⟩
    rw [File.methodAt, found, Option.getD_some, inside, Handle.index_injective same]
  · rintro ⟨known, inside⟩
    refine ⟨file.methodAt lambda, ?_, by rw [inside]; rfl⟩
    rw [File.methodAt, Array.getElem?_eq_getElem known, Option.getD_some]

/-- Only methods of the file are lambdas. -/
theorem known_of_parent {outer lambda : Handle .method}
    (inside : (file.methodAt lambda).parent = some outer) : lambda.index < file.methods.size := by
  by_contra unknown
  rw [File.methodAt, Array.getElem?_eq_none (Nat.le_of_not_lt unknown)] at inside
  cases inside

theorem shape (formed : file.WellFormed) {method : Handle .method}
    (known : method.index < file.methods.size) :
    (file.methodAt method).Shaped file.methods method.index :=
  formed.shaped (by rw [File.methodAt, Array.getElem?_eq_getElem known, Option.getD_some])

theorem isLambda_of_listed (formed : file.WellFormed) {outer lambda : Handle .method}
    (listed : lambda ∈ (file.methodAt outer).lambdas) : (file.methodAt lambda).kind = .lambda := by
  obtain ⟨known, inside⟩ := formed.mem_lambdas.mp listed
  exact (formed.shape known).inside.mpr (by rw [inside]; rfl)

/-- The method around a lambda comes before it. -/
theorem parent_lt (formed : file.WellFormed) {outer lambda : Handle .method}
    (inside : (file.methodAt lambda).parent = some outer) : outer.index < lambda.index :=
  (formed.shape (known_of_parent inside)).before outer inside

/-- A method that a type lists is inside no other. -/
theorem parent_of_listed (formed : file.WellFormed) {type : Handle .type} {method : Handle .method}
    (listed : method ∈ (file.typeAt type).methods) : (file.methodAt method).parent = none := by
  obtain ⟨known, declared, _⟩ := formed.method_of_listed listed
  cases inside : (file.methodAt method).parent with
  | none => rfl
  | some outer =>
      exact absurd ((formed.shape known).inside.mpr (by rw [inside]; rfl)) declared

/-- The method around a lambda is declared by the type of the lambda. -/
theorem outer_declaring (formed : file.WellFormed) {outer lambda : Handle .method}
    (inside : (file.methodAt lambda).parent = some outer) :
    (file.methodAt outer).declaring = (file.methodAt lambda).declaring := by
  have known := known_of_parent inside
  have found := Array.getElem?_eq_getElem (Nat.lt_trans (formed.parent_lt inside) known)
  rw [File.methodAt, found]
  exact (formed.shape known).outer_declaring outer _ inside found

/-- The type that declares a method is in the file. -/
theorem declaring_known (formed : file.WellFormed) {method : Handle .method}
    (known : method.index < file.methods.size) :
    (file.methodAt method).declaring.index < file.types.size := by
  -- A lambda is declared by the type of the method around it, which comes before it.
  generalize place : method.index = i at known
  induction i using Nat.strongRecOn generalizing method with
  | _ i inductionHypothesis =>
      subst place
      cases inside : (file.methodAt method).parent with
      | none =>
          have declared : (file.methodAt method).kind ≠ .lambda := by
            simp [(formed.shape known).inside, inside]
          have found := Array.getElem?_eq_getElem known
          have same : file.methodAt method = file.methods[method.index] := by
            rw [File.methodAt, found, Option.getD_some]
          exact formed.methods.known found (Method.owner_eq_iff.mpr ⟨same ▸ declared, same ▸ rfl⟩)
      | some outer =>
          have before := formed.parent_lt inside
          rw [← formed.outer_declaring inside]
          exact inductionHypothesis outer.index before rfl (Nat.lt_trans before known)

theorem index_le_of_within (formed : file.WellFormed) {outer inner : Handle .method}
    (within : file.Within outer inner) : outer.index ≤ inner.index := by
  induction within with
  | refl => exact Nat.le_refl _
  | tail _ inside inductionHypothesis =>
      exact Nat.le_trans inductionHypothesis (Nat.le_of_lt (formed.parent_lt inside))

/-- More fuel than the place of a method adds nothing to the methods around it. -/
theorem methodChain_eq (formed : file.WellFormed) {fuel : Nat} {method : Handle .method}
    (enough : method.index < fuel) : file.methodChain fuel method = file.enclosingMethods method := by
  induction fuel using Nat.strongRecOn generalizing method with
  | _ fuel inductionHypothesis =>
      obtain ⟨fuel, rfl⟩ := Nat.exists_eq_add_one_of_ne_zero (Nat.ne_zero_of_lt enough)
      rw [File.enclosingMethods, File.methodChain, File.methodChain]
      cases inside : (file.methodAt method).parent with
      | none => rfl
      | some outer =>
          have before := formed.parent_lt inside
          dsimp only
          rw [inductionHypothesis fuel (Nat.lt_succ_self _) (by omega),
            inductionHypothesis method.index enough before]

theorem enclosingMethods_of_outermost {method : Handle .method}
    (alone : (file.methodAt method).parent = none) : file.enclosingMethods method = [method] := by
  rw [File.enclosingMethods, File.methodChain, alone]

theorem enclosingMethods_of_parent (formed : file.WellFormed) {outer lambda : Handle .method}
    (inside : (file.methodAt lambda).parent = some outer) :
    file.enclosingMethods lambda = lambda :: file.enclosingMethods outer := by
  rw [File.enclosingMethods, File.methodChain, inside]
  exact congrArg _ (formed.methodChain_eq (formed.parent_lt inside))

theorem nestingDepth_of_parent (formed : file.WellFormed) {outer lambda : Handle .method}
    (inside : (file.methodAt lambda).parent = some outer) :
    file.nestingDepth lambda = file.nestingDepth outer + 1 := by
  have positive : 0 < (file.enclosingMethods outer).length := by
    rw [File.enclosingMethods, File.methodChain]
    exact Nat.succ_pos _
  rw [File.nestingDepth, File.nestingDepth, formed.enclosingMethods_of_parent inside,
    List.length_cons]
  omega

theorem nestingDepth_of_listed (formed : file.WellFormed) {type : Handle .type}
    {method : Handle .method} (listed : method ∈ (file.typeAt type).methods) :
    file.nestingDepth method = 0 := by
  rw [File.nestingDepth, File.enclosingMethods, File.methodChain, formed.parent_of_listed listed]
  rfl

theorem lambdas_nodup (formed : file.WellFormed) (method : Handle .method) :
    (file.methodAt method).lambdas.Nodup :=
  (formed.lambdas.nodup_getD rfl method.index).of_map _

/-- An element that a method lists is in the file and names the method as its own. -/
theorem owner_of_listed (formed : file.WellFormed) (part : Part) {method : Handle .method} {i : Nat}
    (listed : i ∈ part.list (file.methodAt method)) :
    i < file.count part.kind ∧ file.owningMethod? ⟨part.kind, i⟩ = some method := by
  have unlisted : part.list (default : Method) = [] := by cases part <;> rfl
  obtain ⟨entry, found, owned⟩ := ((formed.parts part).mem_getD_iff unlisted).mp listed
  have bound := (Array.getElem?_eq_some_iff.mp found).1
  have same {holder : Handle .method} (place : some holder.index = some method.index) :
      some holder = some method := congrArg some (Handle.index_injective (Option.some.inj place))
  have of_if {holder : Handle .method} {p : Prop} [Decidable p]
      (place : (if p then some holder.index else none) = some method.index) :
      some holder = some method := by
    split at place
    · exact same place
    · cases place
  cases part <;>
    simp only [Part.table] at found <;>
    simp only [Part.kind, File.owningMethod?, File.variableAt, File.invocationAt,
      File.allocationAt, File.fieldAccessAt, File.methodRefAt, File.castAt, File.stringConstantAt,
      found, Option.getD_some, File.count] <;>
    refine ⟨bound, ?_⟩
  case receiver => exact of_if owned
  case parameter =>
    simp only [Part.owner] at owned
    split at owned
    · exact same owned
    · cases owned
  case localVariable => exact of_if owned
  all_goals exact same owned

theorem list_nodup (formed : file.WellFormed) (part : Part) (method : Handle .method) :
    (part.list (file.methodAt method)).Nodup := by
  have unlisted : part.list (default : Method) = [] := by cases part <;> rfl
  exact (formed.parts part).nodup_getD unlisted method.index

/-- A method lists every element of its body. -/
theorem listed_of_owner (formed : file.WellFormed) (part : Part) {method : Handle .method} {i : Nat}
    (body : part.kind ≠ .variable) (known : i < file.count part.kind)
    (owned : file.owningMethod? ⟨part.kind, i⟩ = some method) :
    i ∈ part.list (file.methodAt method) := by
  have unlisted : part.list (default : Method) = [] := by cases part <;> rfl
  apply ((formed.parts part).mem_getD_iff unlisted).mpr
  cases part <;> first
    | exact absurd rfl body
    | (refine ⟨_, Array.getElem?_eq_getElem known, ?_⟩
       simp only [Part.kind, File.owningMethod?, File.invocationAt, File.allocationAt,
         File.fieldAccessAt, File.methodRefAt, File.castAt, File.stringConstantAt] at owned
       rw [Array.getElem?_eq_getElem known] at owned
       exact congrArg (Option.map Handle.index) owned)

/-- The receiver and the parameters of a method are different variables. -/
theorem variables_nodup (formed : file.WellFormed) (method : Handle .method) :
    ((file.methodAt method).receiver.toList ++ (file.methodAt method).params).Nodup := by
  rw [List.nodup_append]
  refine ⟨?_, (formed.list_nodup .parameter method).of_map _, ?_⟩
  · exact (formed.list_nodup .receiver method).of_map _
  · rintro receiver isReceiver param isParam rfl
    have first : receiver.index ∈ Part.list (file.methodAt method) .receiver :=
      List.mem_map_of_mem isReceiver
    have second : receiver.index ∈ Part.list (file.methodAt method) .parameter :=
      List.mem_map_of_mem isParam
    obtain ⟨entry, found, owned⟩ := ((formed.parts .receiver).mem_getD_iff rfl).mp first
    obtain ⟨other, otherFound, otherOwned⟩ := ((formed.parts .parameter).mem_getD_iff rfl).mp second
    obtain rfl : entry = other := Option.some.inj (found.symm.trans otherFound)
    simp only [Part.owner] at owned otherOwned
    split at owned
    · next isReceiver =>
      rw [isReceiver] at otherOwned
      cases otherOwned
    · cases owned

/-- Receivers and parameters are no local variables. -/
theorem not_local_of_listed (formed : file.WellFormed) {method : Handle .method}
    {held : Handle .variable} (listed : held ∈ (file.methodAt method).receiver.toList ++
      (file.methodAt method).params) : (file.variableAt held).kind ≠ .localVariable := by
  rcases List.mem_append.mp listed with isReceiver | isParam
  · have place : held.index ∈ Part.list (file.methodAt method) .receiver :=
      List.mem_map_of_mem isReceiver
    obtain ⟨entry, found, owned⟩ := ((formed.parts .receiver).mem_getD_iff rfl).mp place
    rw [File.variableAt, show file.vars[held.index]? = some entry from found, Option.getD_some]
    simp only [Part.owner] at owned
    split at owned
    · next isKind =>
      rw [isKind]
      nofun
    · cases owned
  · have place : held.index ∈ Part.list (file.methodAt method) .parameter :=
      List.mem_map_of_mem isParam
    obtain ⟨entry, found, owned⟩ := ((formed.parts .parameter).mem_getD_iff rfl).mp place
    rw [File.variableAt, show file.vars[held.index]? = some entry from found, Option.getD_some]
    simp only [Part.owner] at owned
    split at owned
    · next isKind =>
      rw [isKind]
      nofun
    · cases owned

end File.WellFormed

end Correlate.Source
