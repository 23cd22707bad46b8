/-
Module: Correlate.Proofs.Compiled.Contents
Purpose: What a finished building says of everything that was added.
Main exports: Build.Consistent, building_consistent
-/
import Correlate.Proofs.Compiled.Slots

namespace Correlate.Compiled

/-!
The invariants of building come together in one description of the finished pool.  Two of them are of
its own: which types a type lists as outer types, and which arities the methods of variable arity of
one name have.
-/

/-! ### Outer types -/

/-- The types of the fields of a type that hold an enclosing instance. -/
def Pool.capturedTypes (pool : Pool) (type : TypeDecl) : List String :=
  (type.fields.filter fun field => ReservedName.isOuterThisField (pool.fieldAt field).name).map
    fun field => (pool.fieldAt field).type

/-- Every type lists the types of its enclosing instances. -/
def Pool.OutersListed (pool : Pool) : Prop :=
  ∀ (i : Nat) (type : TypeDecl), pool.types[i]? = some type →
    type.outerTypes = pool.capturedTypes type

namespace Pool.OutersListed

variable {builder : Builder}

/-- Types that are told more, but nothing of their fields. -/
theorem changeTypes {pool later : Pool} (listed : pool.OutersListed)
    (fields_kept : later.fields = pool.fields) (change : TypeDecl → TypeDecl) {place : Nat}
    (types_changed : later.types = pool.types.modify place change)
    (listed_kept : ∀ type, (change type).fields = type.fields)
    (outers_kept : ∀ type, (change type).outerTypes = type.outerTypes) : later.OutersListed := by
  intro i type found
  have same (declared : TypeDecl) : later.capturedTypes declared = pool.capturedTypes declared := by
    simp only [capturedTypes, fieldAt, fields_kept]
  rw [types_changed, Array.getElem?_modify] at found
  split at found
  · obtain ⟨old, oldFound, rfl⟩ := Option.map_eq_some_iff.mp found
    rw [outers_kept, same, capturedTypes, listed_kept, listed i old oldFound]
    rfl
  · rw [same]
    exact listed i type found

theorem pushType (listed : builder.pool.OutersListed) (id : String) :
    (builder.pushType id).pool.OutersListed := by
  intro i type found
  replace found : (builder.pool.types.push { id })[i]? = some type := found
  rw [Array.getElem?_push] at found
  split at found
  · obtain rfl := Option.some.inj found
    rfl
  · exact listed i type found

/-- The fields that a type listed are the same after one more is added. -/
theorem capturedTypes_push {pool later : Pool} (formed : pool.WellFormed) {added : Field}
    (pushed : later.fields = pool.fields.push added) {i : Nat} {type : TypeDecl}
    (found : pool.types[i]? = some type) : later.capturedTypes type = pool.capturedTypes type := by
  have same {field : Handle .field} (member : field ∈ type.fields) :
      later.fieldAt field = pool.fieldAt field := by
    obtain ⟨entry, entryFound, -⟩ := (formed.fields.mem_iff found).mp (List.mem_map_of_mem member)
    have old : field.index < pool.fields.size := (Array.getElem?_eq_some_iff.mp entryFound).1
    rw [fieldAt, fieldAt, pushed, Array.getElem?_push, if_neg (Nat.ne_of_lt old)]
  rw [capturedTypes, capturedTypes,
    List.filter_congr fun field member => by rw [same member]]
  apply List.map_congr_left
  intro field member
  rw [same (List.mem_filter.mp member).1]

theorem addField (listed : builder.pool.OutersListed) (formed : builder.pool.WellFormed)
    (owner : Handle .type) (name fieldType : String) (modifiers : Modifiers) :
    (builder.addField owner name fieldType modifiers).1.pool.OutersListed := by
  have kept {i : Nat} {type : TypeDecl} (found : builder.pool.types[i]? = some type) :=
    capturedTypes_push formed (show
      (builder.addField owner name fieldType modifiers).1.pool.fields = _ from rfl) found
  have added : (builder.addField owner name fieldType modifiers).1.pool.fieldAt
      ⟨builder.pool.fields.size⟩ =
        { id := fieldId (builder.pool.typeAt owner).id fieldType name, name, type := fieldType
          declaring := owner, modifiers } := by
    simp [Pool.fieldAt, Builder.addField, Builder.changeType, Builder.withPool]
  intro i type found
  replace found : (builder.pool.types.modify owner.index _)[i]? = some type := found
  rw [Array.getElem?_modify] at found
  split at found
  · obtain ⟨old, oldFound, rfl⟩ := Option.map_eq_some_iff.mp found
    have before := kept oldFound
    rw [← listed i old oldFound] at before
    rw [← before]
    simp only [capturedTypes, List.filter_append, List.map_append]
    congr 1
    by_cases outer : ReservedName.isOuterThisField name <;> simp [outer, added]
  · rw [kept found]
    exact listed i type found

theorem change (listed : builder.pool.OutersListed) (formed : builder.pool.WellFormed)
    {later : Builder} (changed : builder.Change later) : later.pool.OutersListed := by
  cases changed with
  | known => exact listed
  | told owner tells =>
      exact listed.changeTypes rfl _ rfl tells.fields_kept tells.outerTypes_kept
  | type => exact listed.pushType _
  | field known name fieldType modifiers => exact listed.addField formed _ name fieldType modifiers
  | method =>
      exact listed.changeTypes rfl
        (fun type => { type with methods := type.methods ++ [⟨builder.pool.methods.size⟩] }) rfl
        (fun _ => rfl) fun _ => rfl
  | line => exact listed
  | element =>
      intro i type found
      rw [Part.add_types] at found
      simpa only [capturedTypes, fieldAt, Part.add_fields] using listed i type found

theorem of_reachable (reachable : builder.Reachable) : builder.pool.OutersListed := by
  refine reachable.holds (motive := fun builder => builder.pool.OutersListed) ?_ ?_
  · intro i type found
    simp at found
  · intro before after reachable listed changed
    exact listed.change (WellFormed.of_reachable reachable) changed

end Pool.OutersListed

/-! ### Methods of variable arity -/

theorem mem_insertAscending {n m : Nat} {numbers : List Nat} :
    m ∈ insertAscending n numbers ↔ m = n ∨ m ∈ numbers := by
  induction numbers with
  | nil => simp [insertAscending]
  | cons first rest inductionHypothesis =>
      rw [insertAscending]
      split
      · simp
      · split
        · next same => simp [same]
        · simp only [List.mem_cons, inductionHypothesis]
          tauto

theorem insertAscending_ne_nil (n : Nat) (numbers : List Nat) : insertAscending n numbers ≠ [] := by
  intro empty
  have member : n ∈ insertAscending n numbers := mem_insertAscending.mpr (.inl rfl)
  simp [empty] at member

theorem pairwise_insertAscending {numbers : List Nat} (ascending : numbers.Pairwise (· < ·))
    (n : Nat) : (insertAscending n numbers).Pairwise (· < ·) := by
  induction numbers with
  | nil => simp [insertAscending]
  | cons first rest inductionHypothesis =>
      have ⟨least, tail⟩ := List.pairwise_cons.mp ascending
      rw [insertAscending]
      split
      · next below =>
        refine List.pairwise_cons.mpr ⟨fun m member => ?_, ascending⟩
        rcases List.mem_cons.mp member with rfl | member
        · exact below
        · exact Nat.lt_trans below (least m member)
      · split
        · exact ascending
        · refine List.pairwise_cons.mpr ⟨fun m member => ?_, inductionHypothesis tail⟩
          rcases mem_insertAscending.mp member with rfl | member
          · omega
          · exact least m member

/-- A method has the name and type, and variable arity. -/
def Method.IsVarargsOf (pool : Pool) (name : String) (method : Method) : Prop :=
  method.modifiers.isVarargs = true ∧
    namingId (pool.typeAt method.declaring).id method.name = name

/-- The arities of the methods of variable arity among the given methods, name by name. -/
structure AritiesOf (pool : Pool) (seen : List Method) (arities : Std.TreeMap String (List Nat)) :
    Prop where
  ascending : ∀ name : String, (arities.getD name []).Pairwise (· < ·)
  mem : ∀ (name : String) (arity : Nat), arity ∈ arities.getD name [] ↔
    ∃ method ∈ seen, method.IsVarargsOf pool name ∧ method.arity = arity
  some_arity : ∀ name : String, arities[name]? ≠ some []

namespace AritiesOf

variable {pool : Pool} {seen : List Method} {arities : Std.TreeMap String (List Nat)}

theorem empty : AritiesOf pool [] {} where
  ascending name := by simp
  mem name arity := by simp
  some_arity name := by simp

theorem note (counted : AritiesOf pool seen arities) (method : Method) :
    AritiesOf pool (seen ++ [method]) (Builder.noteVarargs pool arities method) := by
  rw [Builder.noteVarargs]
  split
  · next varargs =>
    refine ⟨fun name => ?_, fun name arity => ?_, fun name => ?_⟩ <;>
      by_cases same : namingId (pool.typeAt method.declaring).id method.name = name
    · subst same
      rw [Std.TreeMap.getD_insert_self]
      exact pairwise_insertAscending (counted.ascending _) _
    · simpa [Std.TreeMap.getD_insert, same] using counted.ascending name
    · subst same
      have old := counted.mem (namingId (pool.typeAt method.declaring).id method.name) arity
      have own : method.IsVarargsOf pool
          (namingId (pool.typeAt method.declaring).id method.name) := ⟨varargs, rfl⟩
      rw [Std.TreeMap.getD_insert_self, mem_insertAscending, old, or_comm, eq_comm]
      simp [or_and_right, exists_or, own]
    · have old := counted.mem name arity
      have other : ¬ method.IsVarargsOf pool name := fun varargsOf => same varargsOf.2
      simpa [Std.TreeMap.getD_insert, same, or_and_right, exists_or, other] using old
    · subst same
      simp [insertAscending_ne_nil]
    · simpa [Std.TreeMap.getElem?_insert, same] using counted.some_arity name
  · next fixed =>
    have other (name : String) : ¬ method.IsVarargsOf pool name := fun varargs => fixed varargs.1
    refine ⟨counted.ascending, fun name arity => ?_, counted.some_arity⟩
    simpa [or_and_right, exists_or, other name] using counted.mem name arity

theorem foldl (counted : AritiesOf pool seen arities) (methods : List Method) :
    AritiesOf pool (seen ++ methods) (methods.foldl (Builder.noteVarargs pool) arities) := by
  induction methods generalizing seen arities with
  | nil => simpa using counted
  | cons method rest inductionHypothesis =>
      simpa using inductionHypothesis (counted.note method)

/-- The arities that a finished pool lists are those of its methods of variable arity. -/
theorem finish {builder : Builder} (reachable : builder.Reachable) :
    AritiesOf builder.finish.pool builder.finish.pool.methods.toList
      builder.finish.pool.varargArities := by
  have none_noted : builder.pool.varargArities = {} := by
    refine reachable.holds (motive := fun builder => builder.pool.varargArities = {}) rfl ?_
    intro before after _ none_noted changed
    cases changed with
    | element => rw [Part.add_varargArities, none_noted]
    | _ => exact none_noted
  have counted := (@empty builder.pool).foldl builder.pool.methods.toList
  rw [List.nil_append, Array.foldl_toList, ← none_noted] at counted
  exact ⟨counted.ascending, counted.mem, counted.some_arity⟩

theorem ascending_of_found (counted : AritiesOf pool seen arities) {name : String}
    {listed : List Nat} (found : arities[name]? = some listed) :
    listed.Pairwise (· < ·) ∧ listed ≠ [] := by
  have ascending := counted.ascending name
  rw [Std.TreeMap.getD_eq_getD_getElem?, found, Option.getD_some] at ascending
  refine ⟨ascending, fun empty => counted.some_arity name ?_⟩
  rw [found, empty]

theorem exists_found_iff (counted : AritiesOf pool seen arities) (name : String) (arity : Nat) :
    (∃ listed, arities[name]? = some listed ∧ arity ∈ listed) ↔
      ∃ method ∈ seen, method.IsVarargsOf pool name ∧ method.arity = arity := by
  rw [← counted.mem, Std.TreeMap.getD_eq_getD_getElem?]
  cases arities[name]? <;> simp

end AritiesOf

/-! ### Everything that was added -/

/-- A list names, in ascending order, the places that satisfy a condition and no others. -/
def ListsExactly (list : List Nat) (chosen : Nat → Prop) : Prop :=
  list.Pairwise (· < ·) ∧ ∀ i, i ∈ list ↔ chosen i

/-- What the finished pool says of its elements, and what is reported of it. -/
structure Build.Consistent (build : Build) : Prop where
  /-- Types are found by their ids. -/
  type_named : ∀ name type, build.pool.typeNamed? name = some type ↔
    type.index < build.pool.types.size ∧ (build.pool.typeAt type).id = name
  type_unique : ∀ one other : Handle .type, one.index < build.pool.types.size →
    other.index < build.pool.types.size →
    (build.pool.typeAt one).id = (build.pool.typeAt other).id → one = other
  /-- Methods are found by their ids. -/
  method_named : ∀ id method, build.pool.methodNamed? id = some method ↔
    method.index < build.pool.methods.size ∧ (build.pool.methodAt method).id = id
  method_unique : ∀ one other : Handle .method, one.index < build.pool.methods.size →
    other.index < build.pool.methods.size →
    (build.pool.methodAt one).id = (build.pool.methodAt other).id → one = other
  /-- A type lists its own fields and methods, and each of these has a type. -/
  fields_listed : ∀ type, ListsExactly ((build.pool.typeAt type).fields.map Handle.index) fun i =>
    i < build.pool.fields.size ∧ (build.pool.fieldAt ⟨i⟩).declaring = type
  field_owned : ∀ field : Handle .field, field.index < build.pool.fields.size →
    (build.pool.fieldAt field).declaring.index < build.pool.types.size
  methods_listed : ∀ type, ListsExactly ((build.pool.typeAt type).methods.map Handle.index) fun i =>
    i < build.pool.methods.size ∧ (build.pool.methodAt ⟨i⟩).declaring = type
  method_owned : ∀ method : Handle .method, method.index < build.pool.methods.size →
    (build.pool.methodAt method).declaring.index < build.pool.types.size
  /-- A method lists its own variables and elements, and each of these has a method. -/
  elements_listed : ∀ (part : Part) method, ListsExactly (part.list (build.pool.methodAt method))
    fun i => i < build.pool.count part.kind.element ∧
      build.pool.owningMethod? ⟨part.kind, i⟩ = some method
  element_owned : ∀ (part : Part) (i : Nat), i < build.pool.count part.kind.element →
    ∃ method : Handle .method, method.index < build.pool.methods.size ∧
      build.pool.owningMethod? ⟨part.kind, i⟩ = some method
  /-- A method has one variable for each parameter type, and a receiver unless it is static. -/
  params_length : ∀ method : Handle .method, method.index < build.pool.methods.size →
    (build.pool.methodAt method).params.length =
      (build.pool.methodAt method).signature.params.length
  param : ∀ method : Handle .method, method.index < build.pool.methods.size → ∀ (n : Nat) held,
    (build.pool.methodAt method).params[n]? = some held →
      held.index < build.pool.vars.size ∧ build.pool.variableAt held =
        { id := (MethodSlot.parameter n).variableId (build.pool.methodAt method).id, method
          slot := .parameter n }
  receiver_isSome : ∀ method : Handle .method, method.index < build.pool.methods.size →
    ((build.pool.methodAt method).receiver.isSome = true ↔
      ¬ (build.pool.methodAt method).modifiers.isStatic = true)
  receiver : ∀ method : Handle .method, method.index < build.pool.methods.size → ∀ held,
    (build.pool.methodAt method).receiver = some held →
      held.index < build.pool.vars.size ∧ build.pool.variableAt held =
        { id := MethodSlot.receiver.variableId (build.pool.methodAt method).id, method
          slot := .receiver }
  /-- The outer types of a type are the types of its fields that hold an enclosing instance. -/
  outers_listed : ∀ type, (build.pool.typeAt type).outerTypes =
    build.pool.capturedTypes (build.pool.typeAt type)
  /-- Lambdas are linked to the methods of the ids that they name. -/
  implementation : ∀ lambda : Handle .lambda, lambda.index < build.pool.lambdas.size →
    (build.pool.lambdaAt lambda).implementation =
      build.pool.methodNamed? (build.pool.lambdaAt lambda).implementationId
  /-- There is one report for each lambda that is linked to none, and it is of a missing input. -/
  missing_reported : build.diagnostics =
    (build.pool.lambdas.toList.filter (·.implementation.isNone)).map
      (Builder.missingImplementation build.pool)
  missing_kind : ∀ diagnostic ∈ build.diagnostics, diagnostic.kind = .missingInput
  /-- The arities of the methods of variable arity of one name are listed once each, ascending. -/
  arities_ascending : ∀ name arities, build.pool.varargAritiesOf? name = some arities →
    arities.Pairwise (· < ·) ∧ arities ≠ []
  mem_arities : ∀ name arity,
    (∃ arities, build.pool.varargAritiesOf? name = some arities ∧ arity ∈ arities) ↔
      ∃ method : Handle .method, method.index < build.pool.methods.size ∧
        (build.pool.methodAt method).IsVarargsOf build.pool name ∧
        (build.pool.methodAt method).arity = arity

namespace Pool.WellFormed

variable {pool : Pool}

theorem fields_listsExactly (formed : pool.WellFormed) (type : Handle .type) :
    ListsExactly ((pool.typeAt type).fields.map Handle.index) fun i =>
      i < pool.fields.size ∧ (pool.fieldAt ⟨i⟩).declaring = type := by
  refine ⟨formed.fields.pairwise_getD rfl type.index, fun i => ?_⟩
  rw [typeAt, formed.fields.mem_getD_iff rfl, exists_found_iff, Option.some.injEq,
    Handle.index_injective.eq_iff]
  rfl

theorem methods_listsExactly (formed : pool.WellFormed) (type : Handle .type) :
    ListsExactly ((pool.typeAt type).methods.map Handle.index) fun i =>
      i < pool.methods.size ∧ (pool.methodAt ⟨i⟩).declaring = type := by
  refine ⟨formed.methods.pairwise_getD rfl type.index, fun i => ?_⟩
  rw [typeAt, formed.methods.mem_getD_iff rfl, exists_found_iff, Option.some.injEq,
    Handle.index_injective.eq_iff]
  rfl

theorem elements_listsExactly (formed : pool.WellFormed) (part : Part) (method : Handle .method) :
    ListsExactly (part.list (pool.methodAt method)) fun i =>
      i < pool.count part.kind.element ∧ pool.owningMethod? ⟨part.kind, i⟩ = some method := by
  have unlisted : part.list (default : Method) = [] := by cases part <;> rfl
  refine ⟨(formed.parts part).pairwise_getD unlisted method.index, fun i => ?_⟩
  rw [methodAt, (formed.parts part).mem_getD_iff unlisted, Part.exists_owned_iff]

end Pool.WellFormed

namespace Pool.SlotsFilled

variable {pool : Pool} {method : Handle .method}

theorem receiver_isSome_iff (filled : pool.SlotsFilled)
    (known : method.index < pool.methods.size) :
    (pool.methodAt method).receiver.isSome = true ↔
      ¬ (pool.methodAt method).modifiers.isStatic = true := by
  have receiver := filled.receiver (found_of_known known)
  rw [methodAt, ← receiver]
  cases (pool.methods[method.index]?.getD default).receiver <;> simp

theorem variableAt_receiver (filled : pool.SlotsFilled) (known : method.index < pool.methods.size)
    {held : Handle .variable} (receiver : (pool.methodAt method).receiver = some held) :
    held.index < pool.vars.size ∧ pool.variableAt held =
      { id := MethodSlot.receiver.variableId (pool.methodAt method).id, method
        slot := .receiver } := by
  have found := (filled.split_filled (found_of_known known)).1 held receiver
  refine ⟨(Array.getElem?_eq_some_iff.mp found).1, ?_⟩
  rw [variableAt, found]
  rfl

theorem variableAt_param (filled : pool.SlotsFilled) (known : method.index < pool.methods.size)
    {n : Nat} {held : Handle .variable} (place : (pool.methodAt method).params[n]? = some held) :
    held.index < pool.vars.size ∧ pool.variableAt held =
      { id := (MethodSlot.parameter n).variableId (pool.methodAt method).id, method
        slot := .parameter n } := by
  have found := filled.param_variable (found_of_known known) place
  refine ⟨(Array.getElem?_eq_some_iff.mp found).1, ?_⟩
  rw [variableAt, found]
  rfl

end Pool.SlotsFilled

theorem Pool.OutersListed.outerTypes_eq {pool : Pool} (listed : pool.OutersListed)
    (type : Handle .type) : (pool.typeAt type).outerTypes = pool.capturedTypes (pool.typeAt type) := by
  rw [typeAt]
  cases found : pool.types[type.index]? with
  | some declared => exact listed _ _ found
  | none => rfl

/-- A type without a field for an enclosing instance has no outer types. -/
theorem Pool.IsBuilt.outerTypes_eq_nil {pool : Pool} (built : pool.IsBuilt) {type : Handle .type}
    (plain : ∀ field ∈ (pool.typeAt type).fields,
      ReservedName.isOuterThisField (pool.fieldAt field).name = false) :
    (pool.typeAt type).outerTypes = [] := by
  obtain ⟨builder, reachable, rfl⟩ := built
  have none_captured : (builder.finish.pool.typeAt type).fields.filter (fun field =>
      ReservedName.isOuterThisField (builder.finish.pool.fieldAt field).name) = [] :=
    List.filter_eq_nil_iff.mpr fun field listed => Bool.eq_false_iff.mp (plain field listed)
  calc (builder.finish.pool.typeAt type).outerTypes
      = builder.finish.pool.capturedTypes (builder.finish.pool.typeAt type) :=
        (Pool.OutersListed.of_reachable reachable).outerTypes_eq type
    _ = [] := by rw [capturedTypes, none_captured, List.map_nil]

theorem Builder.implementation_finish (builder : Builder) {lambda : Handle .lambda}
    (known : lambda.index < builder.finish.pool.lambdas.size) :
    (builder.finish.pool.lambdaAt lambda).implementation =
      builder.finish.pool.methodNamed? (builder.finish.pool.lambdaAt lambda).implementationId := by
  have inside : lambda.index < builder.pool.lambdas.size := by simpa [finish] using known
  simp [Pool.lambdaAt, finish, inside, linkLambda, Pool.methodNamed?]

/-- A method of a pool, as an entry of its table and by its handle. -/
theorem Pool.exists_method_iff (pool : Pool) {holds : Method → Prop} :
    (∃ method ∈ pool.methods.toList, holds method) ↔
      ∃ method : Handle .method, method.index < pool.methods.size ∧
        holds (pool.methodAt method) := by
  constructor
  · rintro ⟨method, member, held⟩
    obtain ⟨i, found⟩ := Array.mem_iff_getElem?.mp (Array.mem_toList_iff.mp member)
    exact ⟨⟨i⟩, (Array.getElem?_eq_some_iff.mp found).1, by simpa [methodAt, found] using held⟩
  · rintro ⟨method, known, held⟩
    have found := found_of_known known
    exact ⟨_, Array.mem_toList_iff.mpr (Array.mem_of_getElem? found), held⟩

/-- Whatever is added in whatever order, the finished pool finds, lists and links what it holds. -/
theorem building_consistent {steps : List Step} (admitted : ({} : Builder).Admits steps) :
    (({} : Builder).performAll steps).1.finish.Consistent := by
  have reachable := Builder.Reachable.empty.performAll admitted
  generalize (({} : Builder).performAll steps).1 = builder at reachable
  have built : builder.finish.pool.IsBuilt := ⟨builder, reachable, rfl⟩
  have formed := built.wellFormed
  have slots := built.slotsFilled
  have counted := AritiesOf.finish reachable
  exact
    { type_named := formed.types_named.find_iff
      type_unique := fun _ _ => formed.types_named.unique
      method_named := formed.methods_named.find_iff
      method_unique := fun _ _ => formed.methods_named.unique
      fields_listed := formed.fields_listsExactly
      field_owned := fun _ known => formed.fields.known (found_of_known known) rfl
      methods_listed := formed.methods_listsExactly
      method_owned := fun _ known => formed.methods.known (found_of_known known) rfl
      elements_listed := formed.elements_listsExactly
      element_owned := fun part _ => formed.element_known part
      params_length := fun _ known => slots.params_length (found_of_known known)
      param := fun _ known _ _ => slots.variableAt_param known
      receiver_isSome := fun _ => slots.receiver_isSome_iff
      receiver := fun _ known _ => slots.variableAt_receiver known
      outers_listed := (Pool.OutersListed.of_reachable reachable).outerTypes_eq
      implementation := fun _ => builder.implementation_finish
      missing_reported := rfl
      missing_kind := by
        intro diagnostic member
        obtain ⟨lambda, -, rfl⟩ := List.mem_map.mp member
        rfl
      arities_ascending := fun _ _ => counted.ascending_of_found
      mem_arities := fun name arity =>
        (counted.exists_found_iff name arity).trans builder.finish.pool.exists_method_iff }

/-- An inner type.  It creates a lambda before it has the method that implements it, and another
one that nothing implements. -/
def innerTypeSteps : List Step :=
  let method (name : String) (params : List String) : Signature :=
    { name, params, returnType := "void" }
  [.type "a.B$C", .field ⟨0⟩ "this$0" "a.B" [], .method ⟨0⟩ (method "m" ["int"]) [],
    .lambda ⟨0⟩ "<a.B$C: void lambda$m$0()>" none, .lambda ⟨0⟩ "<a.B$C: void lambda$m$1()>" none,
    .method ⟨0⟩ (method "lambda$m$0" []) [.static],
    .method ⟨0⟩ (method "all" ["int", "int[]"]) [.varargs],
    .method ⟨0⟩ (method "all" ["int[]"]) [.varargs]]

theorem building_consistent_innerType : ({} : Builder).Admits innerTypeSteps ∧
    (({} : Builder).performAll innerTypeSteps).1.finish.Consistent ∧
    (({} : Builder).performAll innerTypeSteps).1.finish.diagnostics.length = 1 ∧
    (({} : Builder).performAll innerTypeSteps).1.finish.pool.varargAritiesOf? "a.B$C.all" =
      some [1, 2] := by
  have admitted : ({} : Builder).Admits innerTypeSteps := by
    refine ⟨trivial, ?_, ?_, ?_, ?_, ?_, ?_, ?_, trivial⟩ <;> exact Nat.zero_lt_one
  exact ⟨admitted, building_consistent admitted, by decide +kernel, by decide +kernel⟩

end Correlate.Compiled
