/-
Module: Correlate.Proofs.Source.Consistency
Purpose: Whatever is added to a file is listed where it belongs, and every walk outwards ends.
Main exports: File.Finds, File.Surrounds, File.Consistent, assembling_consistent
-/
import Correlate.Proofs.Compiled.Contents
import Correlate.Proofs.Source.Founding
import Correlate.Proofs.Source.Ownership

namespace Correlate.Source

/-!
A file is a table of entries for each kind of element, and types and methods list the elements that are
theirs.  The two invariants of building come together in one description of a file.  Types and methods
come after what is around them; so whoever walks outwards from one of them, however far, comes to an
end.  The walks are given here as they proceed, without a bound on their length, and are shown to come
to what the bounded ones compute.
-/

open Compiled (ListsExactly exists_found_iff found_of_known)

/-! ### Walks outwards -/

/-- The search for a variable of a name, from a method outwards, ends with an answer. -/
inductive File.Finds (file : File) (name : String) :
    Option (Handle .method) → Option (Handle .variable) → Prop where
  | outside : Finds file name none none
  | here {method : Handle .method} {held : Handle .variable}
      (own : file.ownVariable? name method = some held) : Finds file name (some method) (some held)
  | outward {method : Handle .method} {answer : Option (Handle .variable)}
      (foreign : file.ownVariable? name method = none)
      (rest : Finds file name (file.methodAt method).parent answer) :
      Finds file name (some method) answer

/-- The walk from a type outwards ends with the types around it, outermost first. -/
inductive File.Surrounds (file : File) : Handle .type → List (Handle .type) → Prop where
  | outermost {type : Handle .type} (alone : (file.typeAt type).parent = none) :
      Surrounds file type []
  | nested {type outer : Handle .type} {around : List (Handle .type)}
      (inside : (file.typeAt type).parent = some outer) (rest : Surrounds file outer around) :
      Surrounds file type (around ++ [outer])

namespace File

variable {file : File}

namespace WellFormed

theorem finds (formed : file.WellFormed) (name : String) (method : Handle .method) :
    file.Finds name (some method) (file.findVariable? method name) := by
  -- The induction is on the place of the method: what is around it comes before it.
  generalize place : method.index = i
  induction i using Nat.strongRecOn generalizing method with
  | _ i inductionHypothesis =>
      subst place
      cases own : file.ownVariable? name method with
      | some held =>
          have found : file.findVariable? method name = some held := by
            rw [findVariable?, enclosingMethods, methodChain, List.findSome?_cons, own]
          exact found ▸ .here own
      | none =>
          refine .outward own ?_
          cases inside : (file.methodAt method).parent with
          | none =>
              rw [findVariable?, WellFormed.enclosingMethods_of_outermost inside, List.findSome?_cons, own]
              exact .outside
          | some outer =>
              rw [findVariable?, formed.enclosingMethods_of_parent inside, List.findSome?_cons, own]
              exact inductionHypothesis outer.index (formed.parent_lt inside) outer rfl

theorem eq_of_finds (formed : file.WellFormed) {name : String}
    {start : Option (Handle .method)} {answer : Option (Handle .variable)}
    (found : file.Finds name start answer) : answer = start.bind (file.findVariable? · name) := by
  induction found with
  | outside => rfl
  | here own =>
      rw [Option.bind_some, findVariable?, enclosingMethods, methodChain, List.findSome?_cons, own]
  | @outward method answer foreign rest inductionHypothesis =>
      rw [inductionHypothesis, Option.bind_some, findVariable?]
      cases inside : (file.methodAt method).parent with
      | none => rw [WellFormed.enclosingMethods_of_outermost inside, List.findSome?_cons, foreign]; rfl
      | some outer =>
          rw [formed.enclosingMethods_of_parent inside, List.findSome?_cons, foreign]
          rfl

/-- The search for a variable ends with one answer, wherever it starts. -/
theorem finds_iff (formed : file.WellFormed) {name : String} {method : Handle .method}
    {answer : Option (Handle .variable)} :
    file.Finds name (some method) answer ↔ file.findVariable? method name = answer :=
  ⟨fun found => (formed.eq_of_finds found).symm, fun same => same ▸ formed.finds name method⟩

end WellFormed

namespace Founded

theorem slots (founded : file.Founded) {method : Handle .method}
    (known : method.index < file.methods.size) : (file.methodAt method).Slotted file.vars :=
  founded.slotted (by rw [methodAt, Array.getElem?_eq_getElem known, Option.getD_some])

/-- The type around a type comes before it. -/
theorem type_parent_lt (founded : file.Founded) {type outer : Handle .type}
    (inside : (file.typeAt type).parent = some outer) : outer.index < type.index := by
  by_cases known : type.index < file.types.size
  · exact (founded.head known).before outer inside
  · rw [typeAt, Array.getElem?_eq_none (Nat.le_of_not_lt known)] at inside
    cases inside

/-- More fuel than the place of a type adds nothing to the types around it. -/
theorem typeChain_eq (founded : file.Founded) {fuel : Nat} {type : Handle .type}
    (enough : type.index ≤ fuel) : file.typeChain fuel type = file.typeChain type.index type := by
  induction fuel using Nat.strongRecOn generalizing type with
  | _ fuel inductionHypothesis =>
      cases inside : (file.typeAt type).parent with
      | none =>
          have ends (fuel : Nat) : file.typeChain fuel type = [] := by
            cases fuel with
            | zero => rfl
            | succ => rw [typeChain, inside]
          rw [ends, ends]
      | some outer =>
          have before := founded.type_parent_lt inside
          obtain ⟨i, place⟩ := Nat.exists_eq_add_one_of_ne_zero (Nat.ne_zero_of_lt before)
          obtain ⟨rest, rfl⟩ := Nat.exists_eq_add_one_of_ne_zero
            (Nat.ne_zero_of_lt (Nat.lt_of_lt_of_le before enough))
          rw [place, typeChain, typeChain, inside]
          dsimp only
          rw [inductionHypothesis rest (Nat.lt_succ_self _) (by omega),
            inductionHypothesis i (by omega) (by omega)]

theorem enclosingTypes_of_parent (founded : file.Founded) {type outer : Handle .type}
    (inside : (file.typeAt type).parent = some outer) :
    file.enclosingTypes type = file.enclosingTypes outer ++ [outer] := by
  have before := founded.type_parent_lt inside
  obtain ⟨i, place⟩ := Nat.exists_eq_add_one_of_ne_zero (Nat.ne_zero_of_lt before)
  rw [enclosingTypes, enclosingTypes, place, typeChain, inside]
  dsimp only
  rw [founded.typeChain_eq (by omega), List.reverse_cons]

theorem enclosingTypes_of_outermost {type : Handle .type}
    (alone : (file.typeAt type).parent = none) : file.enclosingTypes type = [] := by
  rw [enclosingTypes]
  cases type.index with
  | zero => rfl
  | succ => rw [typeChain, alone]; rfl

theorem surrounds (founded : file.Founded) (type : Handle .type) :
    file.Surrounds type (file.enclosingTypes type) := by
  generalize place : type.index = i
  induction i using Nat.strongRecOn generalizing type with
  | _ i inductionHypothesis =>
      subst place
      cases inside : (file.typeAt type).parent with
      | none => exact enclosingTypes_of_outermost inside ▸ .outermost inside
      | some outer =>
          rw [founded.enclosingTypes_of_parent inside]
          exact .nested inside
            (inductionHypothesis outer.index (founded.type_parent_lt inside) outer rfl)

/-- The walk outwards ends with one list of types, wherever it starts. -/
theorem surrounds_iff (founded : file.Founded) {type : Handle .type}
    {around : List (Handle .type)} :
    file.Surrounds type around ↔ file.enclosingTypes type = around := by
  refine ⟨fun walked => ?_, fun same => same ▸ founded.surrounds type⟩
  induction walked with
  | outermost alone => exact enclosingTypes_of_outermost alone
  | nested inside _ inductionHypothesis =>
      rw [founded.enclosingTypes_of_parent inside, inductionHypothesis]

end Founded

/-! ### Everything that was added -/

/-- What a file says of its elements. -/
structure Consistent (file : File) : Prop where
  /-- The type around a type comes before it. -/
  type_parent : ∀ type outer, (file.typeAt type).parent = some outer → outer.index < type.index
  /-- Lambdas, and no other methods, are inside methods, which come before them and are declared by
  the same types. -/
  isLambda : ∀ method : Handle .method, method.index < file.methods.size →
    ((file.methodAt method).kind = .lambda ↔ (file.methodAt method).parent.isSome = true)
  lambda_parent : ∀ method outer, (file.methodAt method).parent = some outer →
    outer.index < method.index ∧
      (file.methodAt outer).declaring = (file.methodAt method).declaring
  /-- A type lists exactly its fields, its methods that are no lambdas, and the names used in it. -/
  fields_listed : ∀ type, ListsExactly ((file.typeAt type).fields.map Handle.index) fun i =>
    i < file.fields.size ∧ (file.fieldAt ⟨i⟩).declaring = type
  field_owned : ∀ field : Handle .field, field.index < file.fields.size →
    (file.fieldAt field).declaring.index < file.types.size
  methods_listed : ∀ type, ListsExactly ((file.typeAt type).methods.map Handle.index) fun i =>
    i < file.methods.size ∧ (file.methodAt ⟨i⟩).kind ≠ .lambda ∧
      (file.methodAt ⟨i⟩).declaring = type
  method_owned : ∀ method : Handle .method, method.index < file.methods.size →
    (file.methodAt method).declaring.index < file.types.size
  usages_listed : ∀ type, ListsExactly ((file.typeAt type).typeUsages.map Handle.index) fun i =>
    i < file.typeUsages.size ∧ (file.typeUsageAt ⟨i⟩).declaring = type
  usage_owned : ∀ usage : Handle .typeUsage, usage.index < file.typeUsages.size →
    (file.typeUsageAt usage).declaring.index < file.types.size
  /-- A method lists exactly its lambdas, its variables and the elements of its body. -/
  lambdas_listed : ∀ method, ListsExactly ((file.methodAt method).lambdas.map Handle.index) fun i =>
    i < file.methods.size ∧ (file.methodAt ⟨i⟩).parent = some method
  elements_listed : ∀ (part : Part) method, ListsExactly (part.list (file.methodAt method)) fun i =>
    ∃ entry, (part.table file)[i]? = some entry ∧ part.owner entry = some method.index
  element_owned : ∀ (part : Part) (i : Nat) (entry : part.Entry) (owner : Nat),
    (part.table file)[i]? = some entry → part.owner entry = some owner → owner < file.methods.size
  /-- The class initializer of a type is the first of its methods, and has no receiver. -/
  first_method : ∀ type : Handle .type, type.index < file.types.size →
    (file.typeAt type).methods.head? = some (file.typeAt type).classInitializer
  classInitializer : ∀ type : Handle .type, type.index < file.types.size →
    (file.typeAt type).classInitializer.index < file.methods.size ∧
      (file.methodAt (file.typeAt type).classInitializer).declaring = type ∧
      (file.methodAt (file.typeAt type).classInitializer).kind = .classInitializer ∧
      (file.methodAt (file.typeAt type).classInitializer).receiver = none
  /-- The parameters of a method are numbered, and the method has a receiver unless it is static. -/
  param_kind : ∀ (method : Handle .method) (n : Nat) held,
    (file.methodAt method).params[n]? = some held → (file.variableAt held).kind = .parameter n
  receiver_isSome : ∀ method : Handle .method, method.index < file.methods.size →
    ((file.methodAt method).receiver.isSome = true ↔ ¬ (file.methodAt method).isStatic = true)
  /-- The search for a variable and the walk to the outermost type come to their ends. -/
  search_ends : ∀ name method answer,
    file.Finds name (some method) answer ↔ file.findVariable? method name = answer
  walk_ends : ∀ type around, file.Surrounds type around ↔ file.enclosingTypes type = around

namespace WellFormed

/-- What an owner of a file lists, told by the entries alone. -/
theorem listsExactly {α β : Type} [Inhabited α] [Inhabited β] {entries : Array α}
    {owner : α → Option Nat} {owners : Array β} {list : β → List Nat}
    (listed : Listed entries owner owners list) (unlisted : list default = []) (o : Nat) :
    ListsExactly (list (owners[o]?.getD default)) fun i =>
      i < entries.size ∧ owner (entries[i]?.getD default) = some o :=
  ⟨listed.pairwise_getD unlisted o, fun _ => (listed.mem_getD_iff unlisted).trans exists_found_iff⟩

theorem fields_listsExactly (formed : file.WellFormed) (type : Handle .type) :
    ListsExactly ((file.typeAt type).fields.map Handle.index) fun i =>
      i < file.fields.size ∧ (file.fieldAt ⟨i⟩).declaring = type := by
  have exactly := listsExactly formed.fields rfl type.index
  simp only [Option.some.injEq, Handle.index_injective.eq_iff] at exactly
  exact exactly

theorem usages_listsExactly (formed : file.WellFormed) (type : Handle .type) :
    ListsExactly ((file.typeAt type).typeUsages.map Handle.index) fun i =>
      i < file.typeUsages.size ∧ (file.typeUsageAt ⟨i⟩).declaring = type := by
  have exactly := listsExactly formed.usages rfl type.index
  simp only [Option.some.injEq, Handle.index_injective.eq_iff] at exactly
  exact exactly

theorem methods_listsExactly (formed : file.WellFormed) (type : Handle .type) :
    ListsExactly ((file.typeAt type).methods.map Handle.index) fun i =>
      i < file.methods.size ∧ (file.methodAt ⟨i⟩).kind ≠ .lambda ∧
        (file.methodAt ⟨i⟩).declaring = type := by
  have exactly := listsExactly formed.methods rfl type.index
  simp only [Method.owner_eq_iff] at exactly
  exact exactly

theorem lambdas_listsExactly (formed : file.WellFormed) (method : Handle .method) :
    ListsExactly ((file.methodAt method).lambdas.map Handle.index) fun i =>
      i < file.methods.size ∧ (file.methodAt ⟨i⟩).parent = some method := by
  have exactly := listsExactly formed.lambdas rfl method.index
  have same (outer : Option (Handle .method)) :
      outer.map Handle.index = some method.index ↔ outer = some method := by
    rw [← Option.map_some, (Option.map_injective Handle.index_injective).eq_iff]
  simp only [same] at exactly
  exact exactly

theorem elements_listsExactly (formed : file.WellFormed) (part : Part) (method : Handle .method) :
    ListsExactly (part.list (file.methodAt method)) fun i =>
      ∃ entry, (part.table file)[i]? = some entry ∧ part.owner entry = some method.index := by
  have unlisted : part.list (default : Method) = [] := by cases part <;> rfl
  exact ⟨(formed.parts part).pairwise_getD unlisted method.index,
    fun _ => (formed.parts part).mem_getD_iff unlisted⟩

end WellFormed

namespace Founded

theorem classInitializer (founded : file.Founded) {type : Handle .type}
    (known : type.index < file.types.size) :
    (file.typeAt type).classInitializer.index < file.methods.size ∧
      (file.methodAt (file.typeAt type).classInitializer).declaring = type ∧
      (file.methodAt (file.typeAt type).classInitializer).kind = .classInitializer ∧
      (file.methodAt (file.typeAt type).classInitializer).receiver = none := by
  obtain ⟨method, found, initializes⟩ := (founded.head known).initializer
  have told : file.methodAt (file.typeAt type).classInitializer = method := by
    rw [methodAt, found, Option.getD_some]
  have unreceived := mt (founded.slotted found).receiver_isSome.mp
    (by simp [initializes.isStatic])
  refine ⟨(Array.getElem?_eq_some_iff.mp found).1, ?_⟩
  rw [told]
  exact ⟨initializes.declaring, initializes.kind, by simpa using unreceived⟩

theorem param_kind (founded : file.Founded) (method : Handle .method) {n : Nat}
    {held : Handle .variable} (place : (file.methodAt method).params[n]? = some held) :
    (file.variableAt held).kind = .parameter n := by
  by_cases known : method.index < file.methods.size
  · obtain ⟨entry, found, numbered⟩ := (founded.slots known).param_kind n held place
    rw [variableAt, found]
    exact numbered
  · rw [methodAt, Array.getElem?_eq_none (Nat.le_of_not_lt known)] at place
    cases place

end Founded

/-- Whatever is added to a file, in whatever order, is listed where it belongs, and every walk
outwards ends. -/
theorem assembling_consistent (assembled : file.Assembled) : file.Consistent where
  type_parent _ _ := assembled.founded.type_parent_lt
  isLambda _ known := (assembled.wellFormed.shape known).inside
  lambda_parent _ _ inside :=
    ⟨assembled.wellFormed.parent_lt inside, assembled.wellFormed.outer_declaring inside⟩
  fields_listed := assembled.wellFormed.fields_listsExactly
  field_owned _ known := assembled.wellFormed.fields.known (found_of_known known) rfl
  methods_listed := assembled.wellFormed.methods_listsExactly
  method_owned _ := assembled.wellFormed.declaring_known
  usages_listed := assembled.wellFormed.usages_listsExactly
  usage_owned _ known := assembled.wellFormed.usages.known (found_of_known known) rfl
  lambdas_listed := assembled.wellFormed.lambdas_listsExactly
  elements_listed := assembled.wellFormed.elements_listsExactly
  element_owned part _ _ _ := (assembled.wellFormed.parts part).known
  first_method _ known := (assembled.founded.head known).first
  classInitializer _ := assembled.founded.classInitializer
  param_kind method _ _ := assembled.founded.param_kind method
  receiver_isSome _ known := by
    rw [(assembled.founded.slots known).receiver_isSome, Bool.not_eq_true]
  search_ends _ _ _ := assembled.wellFormed.finds_iff
  walk_ends _ _ := assembled.founded.surrounds_iff

/-- A type with a nested one, a method with a parameter, a lambda in it and another in that, and a
method that only stands for one of the compiled code. -/
def nestedSteps : List Step :=
  [.type "Outer" none none, .type "Inner" (some ⟨0⟩) none, .anonymousType ⟨1⟩ none,
    .method ⟨0⟩ "run" none false none, .param ⟨3⟩ "x" (some "int") none,
    .localVariable ⟨3⟩ "y" none none, .lambda ⟨3⟩ none, .lambda ⟨4⟩ none,
    .param ⟨5⟩ "z" none none, .invocation ⟨5⟩ "go" 0 none (some ⟨0⟩) none,
    .placeholderInvocation ⟨3⟩ "stop" 0 7, .staticInitializer ⟨1⟩ none,
    .typeUsage ⟨2⟩ "Outer" none]

theorem assembling_consistent_nested :
    let file := ({ path := "Outer.java", package := "p" } : File).performAll nestedSteps
    (file.resolveUsage ⟨0⟩ "p.Outer").Assembled ∧ (file.resolveUsage ⟨0⟩ "p.Outer").Consistent ∧
      file.findVariable? ⟨5⟩ "this" = some ⟨0⟩ ∧ file.enclosingTypes ⟨2⟩ = [⟨0⟩, ⟨1⟩] := by
  intro file
  have admitted : ({ path := "Outer.java", package := "p" } : File).Admits nestedSteps := by
    refine ⟨nofun, ?_, ?_, ?_, ?_, ?_, ?_, ?_, ?_, ⟨?_, ?_, nofun⟩, ?_, ?_, ?_, trivial⟩
    case refine_1 | refine_10 => rintro _ ⟨⟩; decide +kernel
    all_goals (change _ < _; decide +kernel)
  have reachable : file.Reachable := (Reachable.empty "Outer.java" "p").performAll admitted
  have known : 0 < file.typeUsages.size := by decide +kernel
  have assembled : (file.resolveUsage ⟨0⟩ "p.Outer").Assembled :=
    .resolve (.of_reachable reachable) known "p.Outer"
  exact ⟨assembled, assembling_consistent assembled, by decide +kernel, by decide +kernel⟩

end File

end Correlate.Source
