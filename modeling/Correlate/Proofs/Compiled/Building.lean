/-
Module: Correlate.Proofs.Compiled.Building
Purpose: What the steps of building change.
Main exports: Step.Known, Builder.Reachable, Builder.Admits, Pool.IsBuilt, Part, Part.add,
  Builder.Change, Builder.change_perform, Builder.Reachable.holds
-/
import Correlate.Compiled.Script

namespace Correlate.Compiled

/-!
Building only ever refers to types and methods that are there.  What a step makes of a builder is one
of seven changes, and whatever these keep holds of everything that is built.  The six kinds of
elements of a body are added in the same way, each to its own part.
-/

/-! ### Pools that are built -/

/-- A step refers to types and methods that were added before. -/
def Step.Known (pool : Pool) : Step → Prop
  | .type _ => True
  | .typeLine owner _ => owner.index < pool.types.size
  | .typeModifiers owner _ => owner.index < pool.types.size
  | .superType owner _ => owner.index < pool.types.size
  | .annotate owner _ => owner.index < pool.types.size
  | .referencedType owner _ => owner.index < pool.types.size
  | .field owner _ _ _ => owner.index < pool.types.size
  | .method owner _ _ => owner.index < pool.types.size
  | .methodLine holder _ => holder.index < pool.methods.size
  | .invocation holder _ _ _ => holder.index < pool.methods.size
  | .allocation holder _ _ => holder.index < pool.methods.size
  | .fieldAccess holder _ _ _ _ => holder.index < pool.methods.size
  | .methodRef holder _ _ _ => holder.index < pool.methods.size
  | .cast holder _ _ => holder.index < pool.methods.size
  | .lambda holder _ _ => holder.index < pool.methods.size

/-- The builders that steps reach from the empty one. -/
inductive Builder.Reachable : Builder → Prop where
  | empty : Reachable {}
  | perform {builder : Builder} {step : Step} (reachable : Reachable builder)
      (known : step.Known builder.pool) : Reachable (builder.perform step).1

/-- Each of several steps refers to what is there when its turn comes. -/
def Builder.Admits (builder : Builder) : List Step → Prop
  | [] => True
  | step :: rest => step.Known builder.pool ∧ (builder.perform step).1.Admits rest

theorem Builder.Reachable.performAll {builder : Builder} (reachable : builder.Reachable)
    {steps : List Step} (admitted : builder.Admits steps) :
    (builder.performAll steps).1.Reachable := by
  induction steps generalizing builder with
  | nil => exact reachable
  | cons step rest inductionHypothesis =>
      exact inductionHypothesis (reachable.perform admitted.1) admitted.2

/-- The pools that building ends with. -/
def Pool.IsBuilt (pool : Pool) : Prop :=
  ∃ builder : Builder, builder.Reachable ∧ builder.finish.pool = pool

/-! ### Elements of bodies -/

theorem Handle.index_injective {kind : Kind} : Function.Injective (@Handle.index kind) := by
  rintro ⟨i⟩ ⟨j⟩ same
  exact congrArg Handle.mk same

/-- What a method consists of: its variables, and the kinds of elements of its body. -/
inductive Part where
  | slot
  | invocation
  | allocation
  | fieldAccess
  | methodRef
  | cast
  | lambda

namespace Part

/-- The kind of the elements of a part. -/
def kind : Part → Kind
  | .slot => .variable
  | .invocation => .invocation
  | .allocation => .allocation
  | .fieldAccess => .fieldAccess
  | .methodRef => .methodRef
  | .cast => .cast
  | .lambda => .lambda

/-- What a pool knows of an element of a part. -/
abbrev Entry : Part → Type
  | .slot => Variable
  | .invocation => Invocation
  | .allocation => Allocation
  | .fieldAccess => FieldAccess
  | .methodRef => MethodRef
  | .cast => Cast
  | .lambda => Lambda

/-- All elements of a part. -/
def table (pool : Pool) : (part : Part) → Array part.Entry
  | .slot => pool.vars
  | .invocation => pool.invocations
  | .allocation => pool.allocations
  | .fieldAccess => pool.fieldAccesses
  | .methodRef => pool.methodRefs
  | .cast => pool.casts
  | .lambda => pool.lambdas

/-- The place of the method that an element names as its own. -/
def owner : (part : Part) → part.Entry → Option Nat
  | .slot, held => some held.method.index
  | .invocation, call => some call.method.index
  | .allocation, created => some created.method.index
  | .fieldAccess, access => some access.method.index
  | .methodRef, reference => some reference.method.index
  | .cast, conversion => some conversion.method.index
  | .lambda, place => some place.method.index

/-- The places of the elements that a method lists. -/
def list (method : Method) : Part → List Nat
  | .slot => (method.receiver.toList ++ method.params).map Handle.index
  | .invocation => method.invocations.map Handle.index
  | .allocation => method.allocations.map Handle.index
  | .fieldAccess => method.fieldAccesses.map Handle.index
  | .methodRef => method.methodRefs.map Handle.index
  | .cast => method.casts.map Handle.index
  | .lambda => method.lambdas.map Handle.index

/-- The id of an element. -/
def entryId : (part : Part) → part.Entry → String
  | .slot, held => held.id
  | .invocation, call => call.id
  | .allocation, created => created.id
  | .fieldAccess, access => access.id
  | .methodRef, reference => reference.id
  | .cast, conversion => conversion.id
  | .lambda, place => place.id

/-- A pool with one more element of a part. -/
def store (pool : Pool) : (part : Part) → part.Entry → Pool
  | .slot, held => { pool with vars := pool.vars.push held }
  | .invocation, call => { pool with invocations := pool.invocations.push call }
  | .allocation, created => { pool with allocations := pool.allocations.push created }
  | .fieldAccess, access => { pool with fieldAccesses := pool.fieldAccesses.push access }
  | .methodRef, reference => { pool with methodRefs := pool.methodRefs.push reference }
  | .cast, conversion => { pool with casts := pool.casts.push conversion }
  | .lambda, place => { pool with lambdas := pool.lambdas.push place }

/-- A method that lists one more element of a part. -/
def note (method : Method) (i : Nat) : Part → Method
  | .slot => { method with params := method.params ++ [⟨i⟩] }
  | .invocation => { method with invocations := method.invocations ++ [⟨i⟩] }
  | .allocation => { method with allocations := method.allocations ++ [⟨i⟩] }
  | .fieldAccess => { method with fieldAccesses := method.fieldAccesses ++ [⟨i⟩] }
  | .methodRef => { method with methodRefs := method.methodRefs ++ [⟨i⟩] }
  | .cast => { method with casts := method.casts ++ [⟨i⟩] }
  | .lambda => { method with lambdas := method.lambdas ++ [⟨i⟩] }

/-- Add an element to a method: count its key, store it and list it. -/
def add (part : Part) (method : Handle .method) (key : String) (entry : part.Entry)
    (builder : Builder) : Builder :=
  ((builder.countKey method key).withPool fun pool => part.store pool entry
    ).changeMethod method fun record => part.note record (part.table builder.pool).size

section Laws

variable (part : Part) {other : Part} (pool : Pool) (record : Method) (i : Nat)
  (method : Handle .method) (key : String) (entry : part.Entry) (builder : Builder)

@[simp]
theorem note_id : (part.note record i).id = record.id := by
  cases part <;> rfl

@[simp]
theorem note_declaring : (part.note record i).declaring = record.declaring := by
  cases part <;> rfl

@[simp]
theorem note_signature : (part.note record i).signature = record.signature := by
  cases part <;> rfl

@[simp]
theorem note_modifiers : (part.note record i).modifiers = record.modifiers := by
  cases part <;> rfl

@[simp]
theorem note_receiver : (part.note record i).receiver = record.receiver := by
  cases part <;> rfl

theorem list_note_self : part.list (part.note record i) = part.list record ++ [i] := by
  cases part <;> simp [list, note]

theorem list_note_other (differ : other ≠ part) :
    other.list (part.note record i) = other.list record := by
  cases part <;> cases other <;> first | rfl | exact absurd rfl differ

@[simp]
theorem add_types : (part.add method key entry builder).pool.types = builder.pool.types := by
  cases part <;> rfl

@[simp]
theorem add_typeIndex :
    (part.add method key entry builder).pool.typeIndex = builder.pool.typeIndex := by
  cases part <;> rfl

@[simp]
theorem add_fields : (part.add method key entry builder).pool.fields = builder.pool.fields := by
  cases part <;> rfl

@[simp]
theorem add_methods : (part.add method key entry builder).pool.methods =
    builder.pool.methods.modify method.index
      fun record => part.note record (part.table builder.pool).size := by
  cases part <;> rfl

@[simp]
theorem add_methodIndex :
    (part.add method key entry builder).pool.methodIndex = builder.pool.methodIndex := by
  cases part <;> rfl

@[simp]
theorem add_varargArities :
    (part.add method key entry builder).pool.varargArities = builder.pool.varargArities := by
  cases part <;> rfl

theorem table_add_self : part.table (part.add method key entry builder).pool =
    (part.table builder.pool).push entry := by
  cases part <;> rfl

theorem table_add_other (differ : other ≠ part) :
    other.table (part.add method key entry builder).pool = other.table builder.pool := by
  cases part <;> cases other <;> first | rfl | exact absurd rfl differ

/-- An element of a builder that got one more is an old one or the new one. -/
theorem found_add {i : Nat} {held : other.Entry}
    (found : (other.table (part.add method key entry builder).pool)[i]? = some held) :
    (other.table builder.pool)[i]? = some held ∨
      ((⟨other.kind, i⟩ : Ref) = ⟨part.kind, (part.table builder.pool).size⟩ ∧
        other.entryId held = part.entryId entry ∧ other.owner held = part.owner entry) := by
  by_cases same : other = part
  · subst same
    rw [table_add_self, Array.getElem?_push] at found
    split at found
    · next last =>
      obtain rfl := Option.some.inj found
      exact .inr ⟨by rw [last], rfl, rfl⟩
    · exact .inl found
  · rw [table_add_other _ _ _ _ _ same] at found
    exact .inl found

end Laws

/-! #### Elements by name -/

section Names

variable {part : Part} {pool : Pool} {i : Nat} {entry : part.Entry}

theorem count_kind (part : Part) (pool : Pool) :
    pool.count part.kind.element = (part.table pool).size := by
  cases part <;> rfl

theorem elementId_of_found (found : (part.table pool)[i]? = some entry) :
    pool.elementId ⟨part.kind, i⟩ = part.entryId entry := by
  cases part <;>
    simp only [table] at found <;>
    simp [kind, entryId, Pool.elementId, Pool.variableAt, Pool.invocationAt, Pool.allocationAt,
      Pool.fieldAccessAt, Pool.methodRefAt, Pool.castAt, Pool.lambdaAt, found]

theorem owningMethod_of_found (found : (part.table pool)[i]? = some entry)
    {method : Handle .method} (owned : part.owner entry = some method.index) :
    pool.owningMethod? ⟨part.kind, i⟩ = some method := by
  have same {holder : Handle .method} (place : some holder.index = some method.index) :
      some holder = some method := congrArg some (Handle.index_injective (Option.some.inj place))
  cases part <;>
    simp only [table] at found <;>
    simp only [kind, Pool.owningMethod?, Pool.variableAt, Pool.invocationAt, Pool.allocationAt,
      Pool.fieldAccessAt, Pool.methodRefAt, Pool.castAt, Pool.lambdaAt, found, Option.getD_some] <;>
    exact same owned

/-- An element names a method as its own. -/
theorem exists_owner (entry : part.Entry) :
    ∃ method : Handle .method, part.owner entry = some method.index := by
  cases part <;> exact ⟨_, rfl⟩

/-- The elements of a method, by name and as the entries of a table. -/
theorem exists_owned_iff {method : Handle .method} :
    (∃ entry, (part.table pool)[i]? = some entry ∧ part.owner entry = some method.index) ↔
      i < pool.count part.kind.element ∧ pool.owningMethod? ⟨part.kind, i⟩ = some method := by
  rw [count_kind]
  constructor
  · rintro ⟨entry, found, owned⟩
    exact ⟨(Array.getElem?_eq_some_iff.mp found).1, owningMethod_of_found found owned⟩
  · rintro ⟨known, named⟩
    have found := Array.getElem?_eq_getElem known
    obtain ⟨holder, owned⟩ := exists_owner (part.table pool)[i]
    rw [owningMethod_of_found found owned, Option.some.injEq] at named
    exact ⟨_, found, named ▸ owned⟩

/-- Whatever is neither a type nor a member of one is an element of a part. -/
theorem exists_part {kind : Kind} (inner : kind ∉ [.type, .field, .method]) :
    ∃ part : Part, part.kind = kind := by
  cases kind with
  | type | field | method => simp at inner
  | invocation => exact ⟨.invocation, rfl⟩
  | allocation => exact ⟨.allocation, rfl⟩
  | fieldAccess => exact ⟨.fieldAccess, rfl⟩
  | methodRef => exact ⟨.methodRef, rfl⟩
  | cast => exact ⟨.cast, rfl⟩
  | lambda => exact ⟨.lambda, rfl⟩
  | _ => exact ⟨.slot, rfl⟩

theorem inner_of_owned {element : Ref} {method : Handle .method}
    (named : pool.owningMethod? element = some method) :
    element.kind ∉ [.type, .field, .method] := by
  rcases element with ⟨kind, i⟩
  cases kind with
  | type | field | method => simp [Pool.owningMethod?] at named
  | _ => simp

end Names

end Part

/-! ### Changes -/

/-- What is told of a type besides its members. -/
structure Tells (change : TypeDecl → TypeDecl) : Prop where
  id_kept : ∀ type, (change type).id = type.id
  fields_kept : ∀ type, (change type).fields = type.fields
  methods_kept : ∀ type, (change type).methods = type.methods
  outerTypes_kept : ∀ type, (change type).outerTypes = type.outerTypes

namespace Builder

/-- Add a type of a new id. -/
def pushType (id : String) (builder : Builder) : Builder :=
  builder.withPool fun pool =>
    { pool with
      types := pool.types.push { id }
      typeIndex := pool.typeIndex.insert id ⟨pool.types.size⟩ }

/-- The variables of a new method. -/
def newSlots (method : Handle .method) (id : String) (isStatic : Bool) (arity : Nat) :
    List Variable :=
  (slots isStatic arity).map fun slot => { id := slot.variableId id, method, slot }

/-- A method whose variables follow those that are there. -/
def newMethod (owner : Handle .type) (signature : Signature) (modifiers : Modifiers)
    (pool : Pool) : Method :=
  let first := pool.vars.size
  let firstParam := if modifiers.isStatic then first else first + 1
  { id := signature.idIn (pool.typeAt owner).id, declaring := owner, signature, modifiers
    receiver := if modifiers.isStatic then none else some ⟨first⟩
    params := (List.range signature.arity).map fun i => ⟨firstParam + i⟩ }

/-- Add a method of a new id. -/
def pushMethod (owner : Handle .type) (signature : Signature) (modifiers : Modifiers)
    (builder : Builder) : Builder :=
  let added : Handle .method := ⟨builder.pool.methods.size⟩
  let method := newMethod owner signature modifiers builder.pool
  (builder.withPool fun pool =>
      { pool with
        vars := pool.vars ++ newSlots added method.id modifiers.isStatic signature.arity
        methods := pool.methods.push method
        methodIndex := pool.methodIndex.insert method.id added }
    ).changeType owner fun type => { type with methods := type.methods ++ [added] }

/-- What a step makes of a builder. -/
inductive Change (builder : Builder) : Builder → Prop where
  /-- What is added is there already. -/
  | known : Change builder builder
  | told (owner : Handle .type) {change : TypeDecl → TypeDecl} (tells : Tells change) :
      Change builder (builder.changeType owner change)
  | type {id : String} (unknown : builder.pool.typeNamed? id = none) :
      Change builder (builder.pushType id)
  | field {owner : Handle .type} (known : owner.index < builder.pool.types.size)
      (name fieldType : String) (modifiers : Modifiers) :
      Change builder (builder.addField owner name fieldType modifiers).1
  | method {owner : Handle .type} (known : owner.index < builder.pool.types.size)
      {signature : Signature} {modifiers : Modifiers}
      (unknown : builder.pool.methodNamed? (signature.idIn (builder.pool.typeAt owner).id) = none) :
      Change builder (builder.pushMethod owner signature modifiers)
  | line (method : Handle .method) (line : Option Nat) :
      Change builder (builder.setMethodLine method line)
  | element {part : Part} (body : part ≠ .slot) {method : Handle .method}
      (known : method.index < builder.pool.methods.size) {key : String} {entry : part.Entry}
      (drawn : part.entryId entry = builder.nextId method key)
      (owned : part.owner entry = some method.index) :
      Change builder (part.add method key entry builder)

variable {builder : Builder} {id : String} {owner : Handle .type} {signature : Signature}
  {modifiers : Modifiers}

theorem addType_of_known {type : Handle .type} (known : builder.pool.typeNamed? id = some type) :
    builder.addType id = (builder, type) := by
  rw [addType, known]

theorem addType_of_unknown (unknown : builder.pool.typeNamed? id = none) :
    builder.addType id = (builder.pushType id, ⟨builder.pool.types.size⟩) := by
  rw [addType, unknown]
  rfl

theorem addMethod_of_known {method : Handle .method}
    (known : builder.pool.methodNamed? (signature.idIn (builder.pool.typeAt owner).id) =
      some method) : builder.addMethod owner signature modifiers = (builder, method) := by
  rw [addMethod]
  dsimp only
  rw [known]

theorem addMethod_of_unknown
    (unknown : builder.pool.methodNamed? (signature.idIn (builder.pool.typeAt owner).id) = none) :
    builder.addMethod owner signature modifiers =
      (builder.pushMethod owner signature modifiers, ⟨builder.pool.methods.size⟩) := by
  rw [addMethod]
  dsimp only
  rw [unknown]
  rfl

theorem change_addType (id : String) : builder.Change (builder.addType id).1 := by
  cases found : builder.pool.typeNamed? id with
  | some type =>
      rw [addType_of_known found]
      exact .known
  | none =>
      rw [addType_of_unknown found]
      exact .type found

theorem change_addMethod (known : owner.index < builder.pool.types.size) (signature : Signature)
    (modifiers : Modifiers) : builder.Change (builder.addMethod owner signature modifiers).1 := by
  cases found : builder.pool.methodNamed? (signature.idIn (builder.pool.typeAt owner).id) with
  | some method =>
      rw [addMethod_of_known found]
      exact .known
  | none =>
      rw [addMethod_of_unknown found]
      exact .method known found

theorem change_perform {step : Step} (known : step.Known builder.pool) :
    builder.Change (builder.perform step).1 := by
  cases step with
  | type id => exact change_addType id
  | typeLine owner | typeModifiers owner | superType owner | annotate owner
  | referencedType owner =>
      exact .told owner ⟨fun _ => rfl, fun _ => rfl, fun _ => rfl, fun _ => rfl⟩
  | field owner name fieldType modifiers => exact .field known name fieldType modifiers
  | method owner signature modifiers => exact change_addMethod known signature modifiers
  | methodLine method line => exact .line method line
  | invocation => exact .element (nofun : Part.invocation ≠ .slot) known rfl rfl
  | allocation => exact .element (nofun : Part.allocation ≠ .slot) known rfl rfl
  | fieldAccess => exact .element (nofun : Part.fieldAccess ≠ .slot) known rfl rfl
  | methodRef => exact .element (nofun : Part.methodRef ≠ .slot) known rfl rfl
  | cast => exact .element (nofun : Part.cast ≠ .slot) known rfl rfl
  | lambda => exact .element (nofun : Part.lambda ≠ .slot) known rfl rfl

/-- What every change keeps holds of everything that is built. -/
theorem Reachable.holds {motive : Builder → Prop} (empty : motive {})
    (kept : ∀ {before after : Builder}, before.Reachable → motive before → before.Change after →
      motive after)
    (reachable : builder.Reachable) : motive builder := by
  induction reachable with
  | empty => exact empty
  | perform reachable known inductionHypothesis =>
      exact kept reachable inductionHypothesis (change_perform known)

end Builder

end Correlate.Compiled
