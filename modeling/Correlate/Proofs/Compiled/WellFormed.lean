/-
Module: Correlate.Proofs.Compiled.WellFormed
Purpose: What holds of every pool that is built step by step.
Main exports: Indexed, Pool.WellFormed, Pool.IsBuilt.wellFormed
-/
import Correlate.Proofs.Compiled.Building
import Correlate.Proofs.Listing

namespace Correlate.Compiled

/-!
The indexes of a pool that is built and its elements agree, and types and methods list exactly the
elements that name them as their owners.
-/

/-! ### Well-formedness -/

section Tables

variable {α : Type} [Inhabited α] {table : Array α} {i : Nat}

theorem exists_found_iff {holds : α → Prop} :
    (∃ entry, table[i]? = some entry ∧ holds entry) ↔
      i < table.size ∧ holds (table[i]?.getD default) := by
  constructor
  · rintro ⟨entry, found, held⟩
    rw [found]
    exact ⟨(Array.getElem?_eq_some_iff.mp found).1, held⟩
  · rintro ⟨known, held⟩
    have found := Array.getElem?_eq_getElem known
    rw [found] at held
    exact ⟨table[i], found, held⟩

theorem found_of_known (known : i < table.size) :
    table[i]? = some (table[i]?.getD default) := by
  simp [known]

end Tables

/-- An index finds the entries of a table by their ids, and no two entries share one. -/
def Indexed {α : Type} {kind : Kind} (index : Std.TreeMap String (Handle kind)) (table : Array α)
    (id : α → String) : Prop :=
  ∀ name (handle : Handle kind), index[name]? = some handle ↔
    ∃ entry, table[handle.index]? = some entry ∧ id entry = name

namespace Indexed

variable {α : Type} {kind : Kind} {index : Std.TreeMap String (Handle kind)} {table : Array α}
  {id : α → String}

theorem empty : Indexed ({} : Std.TreeMap String (Handle kind)) (#[] : Array α) id := by
  intro name handle
  simp

theorem modify (formed : Indexed index table id) (i : Nat) {change : α → α}
    (kept : ∀ entry, id (change entry) = id entry) : Indexed index (table.modify i change) id := by
  intro name handle
  apply (formed name handle).trans
  rw [Array.getElem?_modify]
  split
  · simp [kept]
  · rfl

theorem push (formed : Indexed index table id) {entry : α} {name : String} (named : id entry = name)
    (unknown : index[name]? = none) :
    Indexed (index.insert name ⟨table.size⟩) (table.push entry) id := by
  intro sought handle
  have old := formed sought handle
  rw [Std.TreeMap.getElem?_insert, Array.getElem?_push]
  by_cases last : handle.index = table.size
  · obtain rfl : handle = ⟨table.size⟩ := Handle.index_injective last
    simp only [Array.getElem?_eq_none_iff.mpr (Nat.le_refl table.size), reduceCtorEq, false_and,
      exists_false, iff_false] at old
    simp [old, named]
  · have handleNe : (⟨table.size⟩ : Handle kind) ≠ handle := by
      rintro rfl
      exact last rfl
    rw [if_neg last, ← old]
    by_cases same : name = sought
    · subst same
      simp [handleNe, unknown]
    · simp [same]

section Lookup

variable [Inhabited α]

/-- What an index finds, as a property of the entry at a place. -/
theorem find_iff (formed : Indexed index table id) (name : String) (handle : Handle kind) :
    index[name]? = some handle ↔
      handle.index < table.size ∧ id (table[handle.index]?.getD default) = name :=
  (formed name handle).trans exists_found_iff

theorem unique (formed : Indexed index table id) {one other : Handle kind}
    (oneKnown : one.index < table.size) (otherKnown : other.index < table.size)
    (same : id (table[one.index]?.getD default) = id (table[other.index]?.getD default)) :
    one = other := by
  have first := (formed.find_iff _ one).mpr ⟨oneKnown, rfl⟩
  have second := (formed.find_iff _ other).mpr ⟨otherKnown, same.symm⟩
  exact Option.some.inj (first.symm.trans second)

end Lookup

end Indexed

/-- The indexes of a pool find its types and methods by their ids, and owners list their elements. -/
structure Pool.WellFormed (pool : Pool) : Prop where
  types_named : Indexed pool.typeIndex pool.types TypeDecl.id
  methods_named : Indexed pool.methodIndex pool.methods Method.id
  fields : Listed pool.fields (fun field => some field.declaring.index) pool.types
    fun type => type.fields.map Handle.index
  methods : Listed pool.methods (fun method => some method.declaring.index) pool.types
    fun type => type.methods.map Handle.index
  parts : ∀ part : Part, Listed (part.table pool) part.owner pool.methods part.list

namespace Pool.WellFormed

section Building

variable {builder : Builder}

theorem empty : WellFormed {} where
  types_named := .empty
  methods_named := .empty
  fields := .empty
  methods := .empty
  parts part := by cases part <;> exact .empty

/-! #### Types and members -/

/-- A builder whose pool differs in what the types tell, apart from their ids. -/
theorem extendTypes (formed : builder.pool.WellFormed) {later : Builder} {owner : Handle .type}
    {change : TypeDecl → TypeDecl}
    (types_changed : later.pool.types = builder.pool.types.modify owner.index change)
    (types_indexed : later.pool.typeIndex = builder.pool.typeIndex)
    (id_kept : ∀ type, (change type).id = type.id)
    (methods_named : Indexed later.pool.methodIndex later.pool.methods Method.id)
    (fields : Listed later.pool.fields (fun field => some field.declaring.index)
      (builder.pool.types.modify owner.index change) fun type => type.fields.map Handle.index)
    (methods : Listed later.pool.methods (fun method => some method.declaring.index)
      (builder.pool.types.modify owner.index change) fun type => type.methods.map Handle.index)
    (parts : ∀ part : Part, Listed (part.table later.pool) part.owner later.pool.methods part.list) :
    later.pool.WellFormed where
  types_named := by
    rw [types_changed, types_indexed]
    exact formed.types_named.modify owner.index id_kept
  methods_named := methods_named
  fields := by rw [types_changed]; exact fields
  methods := by rw [types_changed]; exact methods
  parts := parts

theorem changeType (formed : builder.pool.WellFormed) (owner : Handle .type)
    {change : TypeDecl → TypeDecl} (tells : Tells change) :
    (builder.changeType owner change).pool.WellFormed := by
  refine formed.extendTypes rfl rfl tells.id_kept formed.methods_named ?_ ?_ fun part => ?_
  · exact formed.fields.modify_owner _ fun type => by rw [tells.fields_kept]
  · exact formed.methods.modify_owner _ fun type => by rw [tells.methods_kept]
  · have part_formed := formed.parts part
    cases part <;> exact part_formed

theorem pushType (formed : builder.pool.WellFormed) {id : String}
    (unknown : builder.pool.typeNamed? id = none) : (builder.pushType id).pool.WellFormed where
  types_named := formed.types_named.push rfl unknown
  methods_named := formed.methods_named
  fields := formed.fields.push_owner rfl
  methods := formed.methods.push_owner rfl
  parts part := by
    have part_formed := formed.parts part
    cases part <;> exact part_formed

theorem addField (formed : builder.pool.WellFormed) {owner : Handle .type}
    (known : owner.index < builder.pool.types.size) (name fieldType : String)
    (modifiers : Modifiers) :
    (builder.addField owner name fieldType modifiers).1.pool.WellFormed := by
  let outer := if ReservedName.isOuterThisField name then [fieldType] else []
  let listed (type : TypeDecl) : TypeDecl :=
    { type with
      outerTypes := type.outerTypes ++ outer
      fields := type.fields ++ [⟨builder.pool.fields.size⟩] }
  have types_changed : (builder.addField owner name fieldType modifiers).1.pool.types =
      builder.pool.types.modify owner.index listed := rfl
  refine formed.extendTypes types_changed rfl (fun _ => rfl) formed.methods_named ?_ ?_ fun part => ?_
  · exact formed.fields.push rfl known fun _ _ => List.map_append
  · exact formed.methods.modify_owner _ fun _ => rfl
  · have part_formed := formed.parts part
    cases part <;> exact part_formed

/-- The handles that a new method gives its variables follow those that are there. -/
theorem slotHandles (first arity : Nat) (isStatic : Bool) :
    let firstParam := if isStatic then first else first + 1
    let receiver : Option (Handle .variable) := if isStatic then none else some ⟨first⟩
    let params : List (Handle .variable) := (List.range arity).map fun i => ⟨firstParam + i⟩
    (receiver.toList ++ params).map Handle.index =
      List.range' first (Builder.slots isStatic arity).length := by
  cases isStatic
  · simp only [Builder.slots, Bool.false_eq_true, if_false, Option.toList_some, List.singleton_append,
      List.map_cons, List.map_map, List.length_cons, List.length_map, List.length_range]
    rw [List.range'_succ, List.range'_eq_map_range]
    rfl
  · simp only [Builder.slots, if_true, Option.toList_none, List.nil_append, List.map_map,
      List.length_map, List.length_range]
    rw [List.range'_eq_map_range]
    rfl

theorem pushMethod (formed : builder.pool.WellFormed) {owner : Handle .type}
    (known : owner.index < builder.pool.types.size) {signature : Signature} {modifiers : Modifiers}
    (unknown : builder.pool.methodNamed? (signature.idIn (builder.pool.typeAt owner).id) = none) :
    (builder.pushMethod owner signature modifiers).pool.WellFormed := by
  let listed (type : TypeDecl) : TypeDecl :=
    { type with methods := type.methods ++ [⟨builder.pool.methods.size⟩] }
  refine formed.extendTypes (show _ = builder.pool.types.modify owner.index listed from rfl) rfl
    (fun _ => rfl) ?_ ?_ ?_ fun part => ?_
  · exact formed.methods_named.push rfl unknown
  · exact formed.fields.modify_owner _ fun _ => rfl
  · exact formed.methods.push rfl known fun _ _ => List.map_append
  · have part_formed := formed.parts part
    cases part with
    | slot =>
        refine part_formed.append (fun slot member => ?_) ?_
        · obtain ⟨_, _, rfl⟩ := List.mem_map.mp member
          rfl
        · rw [Builder.newSlots, List.length_map]
          exact slotHandles _ _ _
    | _ => exact part_formed.push_owner rfl

/-! #### Bodies -/

theorem setMethodLine (formed : builder.pool.WellFormed) (method : Handle .method)
    (line : Option Nat) : (builder.setMethodLine method line).pool.WellFormed where
  types_named := formed.types_named
  methods_named := formed.methods_named.modify _ fun _ => rfl
  fields := formed.fields
  methods := by
    have kept (record : Method) :
        some { record with line }.declaring.index = some record.declaring.index := rfl
    exact formed.methods.modify_entry method.index kept
  parts part := by
    have kept (record : Method) : part.list { record with line } = part.list record := by
      cases part <;> rfl
    have part_formed := (formed.parts part).modify_owner method.index kept
    cases part <;> exact part_formed

theorem addElement (formed : builder.pool.WellFormed) {part : Part} {method : Handle .method}
    (known : method.index < builder.pool.methods.size) {key : String} {entry : part.Entry}
    (owned : part.owner entry = some method.index) :
    (part.add method key entry builder).pool.WellFormed where
  types_named := by
    rw [Part.add_types, Part.add_typeIndex]
    exact formed.types_named
  methods_named := by
    rw [Part.add_methods, Part.add_methodIndex]
    exact formed.methods_named.modify _ fun _ => part.note_id _ _
  fields := by
    rw [Part.add_fields, Part.add_types]
    exact formed.fields
  methods := by
    rw [Part.add_methods, Part.add_types]
    exact formed.methods.modify_entry _ fun record => by rw [part.note_declaring]
  parts := by
    intro other
    rw [Part.add_methods]
    by_cases same : other = part
    · subst same
      rw [Part.table_add_self]
      exact (formed.parts other).push owned known fun record _ => Part.list_note_self _ _ _
    · rw [Part.table_add_other _ _ _ _ _ same]
      exact (formed.parts other).modify_owner _ fun record => Part.list_note_other _ _ _ same

/-! #### Whole buildings -/

theorem change (formed : builder.pool.WellFormed) {later : Builder}
    (changed : builder.Change later) : later.pool.WellFormed := by
  cases changed with
  | known => exact formed
  | told owner tells => exact formed.changeType owner tells
  | type unknown => exact formed.pushType unknown
  | field known name fieldType modifiers => exact formed.addField known name fieldType modifiers
  | method known unknown => exact formed.pushMethod known unknown
  | line method line => exact formed.setMethodLine method line
  | element _ known _ owned => exact formed.addElement known owned

theorem of_reachable (reachable : builder.Reachable) : builder.pool.WellFormed :=
  reachable.holds (motive := fun builder => builder.pool.WellFormed) .empty
    fun _ formed changed => formed.change changed

theorem finish (formed : builder.pool.WellFormed) : builder.finish.pool.WellFormed where
  types_named := formed.types_named
  methods_named := formed.methods_named
  fields := formed.fields
  methods := formed.methods
  parts part := by
    have part_formed := formed.parts part
    cases part with
    | lambda => exact part_formed.map_entry fun _ => rfl
    | _ => exact part_formed

end Building

/-! #### What the lists and indexes say -/

variable {pool : Pool}

theorem field_declaring (formed : pool.WellFormed) {type : Handle .type} {field : Handle .field}
    (listed : field ∈ (pool.typeAt type).fields) : (pool.fieldAt field).declaring = type := by
  have place : field.index ∈ (pool.typeAt type).fields.map Handle.index :=
    List.mem_map_of_mem listed
  obtain ⟨entry, found, owned⟩ := (formed.fields.mem_getD_iff rfl).mp place
  rw [Pool.fieldAt, found]
  exact Handle.index_injective (Option.some.inj owned)

theorem method_declaring (formed : pool.WellFormed) {type : Handle .type} {method : Handle .method}
    (listed : method ∈ (pool.typeAt type).methods) : (pool.methodAt method).declaring = type := by
  have place : method.index ∈ (pool.typeAt type).methods.map Handle.index :=
    List.mem_map_of_mem listed
  obtain ⟨entry, found, owned⟩ := (formed.methods.mem_getD_iff rfl).mp place
  rw [Pool.methodAt, found]
  exact Handle.index_injective (Option.some.inj owned)

theorem methods_nodup (formed : pool.WellFormed) (type : Handle .type) :
    (pool.typeAt type).methods.Nodup :=
  (formed.methods.nodup_getD rfl type.index).of_map

/-- An element that a method lists names the method as its own. -/
theorem owningMethod_of_listed (formed : pool.WellFormed) (part : Part) {method : Handle .method}
    {i : Nat} (listed : i ∈ part.list (pool.methodAt method)) :
    pool.owningMethod? ⟨part.kind, i⟩ = some method := by
  have unlisted : part.list (default : Method) = [] := by cases part <;> rfl
  obtain ⟨entry, found, owned⟩ := ((formed.parts part).mem_getD_iff unlisted).mp listed
  exact Part.owningMethod_of_found found owned

/-- A variable or element of a body is that of a method. -/
theorem element_known (formed : pool.WellFormed) (part : Part) {i : Nat}
    (known : i < pool.count part.kind.element) :
    ∃ method : Handle .method, method.index < pool.methods.size ∧
      pool.owningMethod? ⟨part.kind, i⟩ = some method := by
  rw [Part.count_kind] at known
  have found := Array.getElem?_eq_getElem known
  obtain ⟨method, owned⟩ := Part.exists_owner (part.table pool)[i]
  exact ⟨method, (formed.parts part).known found owned, Part.owningMethod_of_found found owned⟩

theorem list_nodup (formed : pool.WellFormed) (part : Part) (method : Handle .method) :
    (part.list (pool.methodAt method)).Nodup := by
  have unlisted : part.list (default : Method) = [] := by cases part <;> rfl
  exact (formed.parts part).nodup_getD unlisted method.index

theorem id_of_typeNamed (formed : pool.WellFormed) {name : String} {type : Handle .type}
    (found : pool.typeNamed? name = some type) : (pool.typeAt type).id = name := by
  obtain ⟨entry, entryFound, named⟩ := (formed.types_named name type).mp found
  rw [Pool.typeAt, entryFound]
  exact named

/-- No two names have one type. -/
theorem name_unique (formed : pool.WellFormed) {name other : String} {type : Handle .type}
    (found : pool.typeNamed? name = some type) (otherFound : pool.typeNamed? other = some type) :
    name = other := by
  rw [← formed.id_of_typeNamed found, formed.id_of_typeNamed otherFound]

end Pool.WellFormed

theorem Pool.IsBuilt.wellFormed {pool : Pool} (built : pool.IsBuilt) : pool.WellFormed := by
  obtain ⟨builder, reachable, rfl⟩ := built
  exact (Pool.WellFormed.of_reachable reachable).finish

end Correlate.Compiled
