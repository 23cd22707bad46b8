/-
Module: Correlate.Proofs.Compiled.Loading
Purpose: Models that are loaded one after the other come to the same as one model of all their types.
Main exports: Piece, Builder.Declares, Builder.addModels, addModels_eq_addModel
-/
import Correlate.Compiled.Model
import Correlate.Proofs.Compiled.Naming

namespace Correlate.Compiled

/-!
Loading a model declares all its types and then adds all its bodies.  Two models in turn interleave
declarations and bodies, and one model of all their types does not.  This makes no difference: to
declare something is to change nothing that the elements of bodies depend on, as long as their methods
are there.  `Builder.Declares` says so of a program, and programs of that kind may be put one after the
other.
-/

/-! ### Elements of bodies before they are added -/

/-- An element of a body that has no id yet. -/
structure Piece where
  part : Part
  method : Handle .method
  key : String
  /-- The element, once it has an id. -/
  entry : String → part.Entry
  body : part ≠ .slot

namespace Piece

/-- Add an element with the next id of its key. -/
def add (builder : Builder) (piece : Piece) : Builder :=
  piece.part.add piece.method piece.key (piece.entry (builder.nextId piece.method piece.key)) builder

/-- The elements of the body of a method, in the order in which they are added. -/
def ofBody (pending : Handle .method × BodyModel) : List Piece :=
  let (method, body) := pending
  (body.invocations.map fun { targetType, signature, line } =>
    { part := .invocation, method, key := namingId targetType signature.name, body := nofun
      entry := fun id => { id, method, targetType, signature, line } }) ++
  (body.allocations.map fun { type, line } =>
    { part := .allocation, method, key := s!"new {type}", body := nofun
      entry := fun id => { id, method, type, line } }) ++
  (body.fieldAccesses.map fun { name, type, kind, line } =>
    { part := .fieldAccess, method, key := kind.idLead ++ name, body := nofun
      entry := fun id => { id, method, name, type, kind, line } }) ++
  (body.methodRefs.map fun { targetType, name, line } =>
    { part := .methodRef, method, key := s!"<method-ref-{name}>", body := nofun
      entry := fun id => { id, method, targetType, name, line } }) ++
  (body.casts.map fun { type, line } =>
    { part := .cast, method, key := Builder.castKey, body := nofun
      entry := fun id => { id, method, type, line } }) ++
  body.lambdas.map fun { implementation, line } =>
    { part := .lambda, method, key := Builder.lambdaKey, body := nofun
      entry := fun id => { id, method, implementationId := implementation, line } }

theorem method_of_mem_ofBody {pending : Handle .method × BodyModel} {piece : Piece}
    (member : piece ∈ ofBody pending) : piece.method = pending.1 := by
  simp only [ofBody, List.mem_append, List.mem_map] at member
  rcases member with ((((⟨_, _, rfl⟩ | ⟨_, _, rfl⟩) | ⟨_, _, rfl⟩) | ⟨_, _, rfl⟩) | ⟨_, _, rfl⟩) |
    ⟨_, _, rfl⟩ <;> rfl

end Piece

theorem Builder.addBody_eq_foldl (builder : Builder) (pending : Handle .method × BodyModel) :
    builder.addBody pending = (Piece.ofBody pending).foldl Piece.add builder := by
  simp only [Piece.ofBody, List.foldl_append, List.foldl_map]
  rfl

theorem Builder.foldl_addBody (builder : Builder) (pending : PendingBodies) :
    pending.foldl addBody builder = (pending.flatMap Piece.ofBody).foldl Piece.add builder := by
  rw [List.foldl_flatMap]
  exact congrArg (pending.foldl · builder) (funext₂ addBody_eq_foldl)

/-! ### Declaring before or after an element is added -/

namespace Piece

variable {builder : Builder} {piece : Piece}

@[simp]
theorem methods_size_add (builder : Builder) (piece : Piece) :
    (add builder piece).pool.methods.size = builder.pool.methods.size := by
  rw [add, Part.add_methods, Array.size_modify]

@[simp]
theorem types_add (builder : Builder) (piece : Piece) :
    (add builder piece).pool.types = builder.pool.types := by
  rw [add, Part.add_types]

@[simp]
theorem typeNamed?_add (builder : Builder) (piece : Piece) (id : String) :
    (add builder piece).pool.typeNamed? id = builder.pool.typeNamed? id := by
  rw [add, Pool.typeNamed?, Part.add_typeIndex, Pool.typeNamed?]

@[simp]
theorem methodNamed?_add (builder : Builder) (piece : Piece) (id : String) :
    (add builder piece).pool.methodNamed? id = builder.pool.methodNamed? id := by
  rw [add, Pool.methodNamed?, Part.add_methodIndex, Pool.methodNamed?]

@[simp]
theorem typeAt_add (builder : Builder) (piece : Piece) (type : Handle .type) :
    (add builder piece).pool.typeAt type = builder.pool.typeAt type := by
  rw [Pool.typeAt, types_add, Pool.typeAt]

theorem changeType_add (builder : Builder) (piece : Piece) (owner : Handle .type)
    (change : TypeDecl → TypeDecl) :
    (add builder piece).changeType owner change = add (builder.changeType owner change) piece := by
  obtain ⟨part, method, key, entry, body⟩ := piece
  cases part <;> rfl

theorem pushType_add (builder : Builder) (piece : Piece) (id : String) :
    (add builder piece).pushType id = add (builder.pushType id) piece := by
  obtain ⟨part, method, key, entry, body⟩ := piece
  cases part <;> rfl

theorem addField_add (builder : Builder) (piece : Piece) (owner : Handle .type)
    (name fieldType : String) (modifiers : Modifiers) :
    ((add builder piece).addField owner name fieldType modifiers).1 =
      add (builder.addField owner name fieldType modifiers).1 piece := by
  obtain ⟨part, method, key, entry, body⟩ := piece
  cases part <;> rfl

/-! #### Methods -/

/-- The builder with its methods replaced. -/
def setMethods (methods : Array Method) (builder : Builder) : Builder :=
  builder.withPool fun pool => { pool with methods }

section Arrays

variable {α : Type} {table : Array α} {i j : Nat} {change other : α → α}

theorem modify_push (known : i < table.size) (entry : α) :
    (table.push entry).modify i change = (table.modify i change).push entry := by
  apply Array.ext_getElem?
  intro k
  simp only [Array.getElem?_modify, Array.getElem?_push, Array.size_modify]
  split_ifs with atChange atEnd
  · omega
  all_goals rfl

theorem modify_modify (commute : ∀ entry, change (other entry) = other (change entry)) :
    (table.modify i change).modify j other = (table.modify j other).modify i change := by
  apply Array.ext_getElem?
  intro k
  simp only [Array.getElem?_modify]
  split_ifs <;> cases table[k]? <;> simp [commute]

end Arrays

/-- The id that an element gets depends on the id of its method. -/
theorem nextId_congr (builder later : Builder) {method : Handle .method} (key : String)
    (counted : later.counters = builder.counters)
    (same : (later.pool.methodAt method).id = (builder.pool.methodAt method).id) :
    later.nextId method key = builder.nextId method key := by
  rw [Builder.nextId, Builder.nextId, Builder.keyCount, Builder.keyCount, counted, same]

theorem setMethodLine_add (builder : Builder) (piece : Piece) (holder : Handle .method)
    (line : Option Nat) :
    (add builder piece).setMethodLine holder line = add (builder.setMethodLine holder line) piece := by
  obtain ⟨part, method, key, entry, _⟩ := piece
  let lined (record : Method) : Method := { record with line }
  let noted (record : Method) : Method := part.note record (part.table builder.pool).size
  have commute (record : Method) : noted (lined record) = lined (noted record) := by
    cases part <;> rfl
  have drawn : (builder.setMethodLine holder line).nextId method key = builder.nextId method key := by
    have kept (record : Method) : (lined record).id = record.id := rfl
    refine nextId_congr builder (builder.setMethodLine holder line) key rfl ?_
    exact Builder.id_getD_modify kept method.index
  rw [add, add]
  dsimp only
  rw [drawn]
  let added := part.add method key (entry (builder.nextId method key)) builder
  calc added.setMethodLine holder line
    _ = setMethods ((builder.pool.methods.modify method.index noted).modify holder.index lined)
          added := by cases part <;> rfl
    _ = setMethods ((builder.pool.methods.modify holder.index lined).modify method.index noted)
          added := by rw [modify_modify commute]
    _ = part.add method key _ (builder.setMethodLine holder line) := by cases part <;> rfl

/-- The builder with everything that a new method adds besides itself. -/
def announce (added : Handle .method) (record : Method) (builder : Builder) : Builder :=
  (builder.withPool fun pool =>
      { pool with
        vars := pool.vars ++
          Builder.newSlots added record.id record.modifiers.isStatic record.signature.arity
        methodIndex := pool.methodIndex.insert record.id added }
    ).changeType record.declaring fun type => { type with methods := type.methods ++ [added] }

theorem pushMethod_add (builder : Builder) (piece : Piece)
    (fits : piece.method.index < builder.pool.methods.size) (owner : Handle .type)
    (signature : Signature) (modifiers : Modifiers) :
    (add builder piece).pushMethod owner signature modifiers =
      add (builder.pushMethod owner signature modifiers) piece := by
  obtain ⟨part, method, key, entry, body⟩ := piece
  let record := Builder.newMethod owner signature modifiers builder.pool
  let noted (record : Method) : Method := part.note record (part.table builder.pool).size
  have drawn : (builder.pushMethod owner signature modifiers).nextId method key =
      builder.nextId method key := by
    refine nextId_congr builder (builder.pushMethod owner signature modifiers) key rfl ?_
    change ((builder.pool.methods.push record)[method.index]?.getD default).id = _
    rw [Array.getElem?_push, if_neg (Nat.ne_of_lt fits)]
    rfl
  rw [add, add]
  dsimp only
  rw [drawn]
  let added := part.add method key (entry (builder.nextId method key)) builder
  -- A new method reads how many methods there are, and that an element leaves alone.
  calc added.pushMethod owner signature modifiers
    _ = setMethods ((builder.pool.methods.modify method.index noted).push record)
          (announce ⟨(builder.pool.methods.modify method.index noted).size⟩ record added) := by
        cases part with
        | slot => exact absurd rfl body
        | _ => rfl
    _ = setMethods ((builder.pool.methods.push record).modify method.index noted)
          (announce ⟨builder.pool.methods.size⟩ record added) := by
        rw [modify_push fits, Array.size_modify]
    _ = part.add method key _ (builder.pushMethod owner signature modifiers) := by
        cases part with
        | slot => exact absurd rfl body
        | _ => rfl

/-! #### What may be there already -/

theorem addType_add (builder : Builder) (piece : Piece) (id : String) :
    (add builder piece).addType id = (add (builder.addType id).1 piece, (builder.addType id).2) := by
  have known := typeNamed?_add builder piece id
  cases found : builder.pool.typeNamed? id with
  | some type =>
      rw [found] at known
      rw [Builder.addType_of_known known, Builder.addType_of_known found]
  | none =>
      rw [found] at known
      rw [Builder.addType_of_unknown known, Builder.addType_of_unknown found, pushType_add, types_add]

theorem addMethod_add (builder : Builder) (piece : Piece)
    (fits : piece.method.index < builder.pool.methods.size) (owner : Handle .type)
    (signature : Signature) (modifiers : Modifiers) :
    (add builder piece).addMethod owner signature modifiers =
      (add (builder.addMethod owner signature modifiers).1 piece,
        (builder.addMethod owner signature modifiers).2) := by
  have known := methodNamed?_add builder piece (signature.idIn (builder.pool.typeAt owner).id)
  rw [← typeAt_add builder piece owner] at known
  cases found : builder.pool.methodNamed? (signature.idIn (builder.pool.typeAt owner).id) with
  | some method =>
      rw [typeAt_add, found, ← typeAt_add builder piece owner] at known
      rw [Builder.addMethod_of_known known, Builder.addMethod_of_known found]
  | none =>
      rw [typeAt_add, found, ← typeAt_add builder piece owner] at known
      rw [Builder.addMethod_of_unknown known, Builder.addMethod_of_unknown found,
        pushMethod_add _ _ fits, methods_size_add]

end Piece

/-! ### Declaring whatever elements are there -/

namespace Builder

/-- The methods that are found by their ids are there. -/
def MethodsFound (builder : Builder) : Prop :=
  ∀ id method, builder.pool.methodNamed? id = some method → method.index < builder.pool.methods.size

theorem MethodsFound.of_reachable {builder : Builder} (reachable : builder.Reachable) :
    builder.MethodsFound := fun id method found =>
  (((Pool.WellFormed.of_reachable reachable).methods_named.find_iff id method).mp found).1

/-- Two builders that find the same methods. -/
theorem MethodsFound.of_kept {builder later : Builder} (found : builder.MethodsFound)
    (size_kept : later.pool.methods.size = builder.pool.methods.size)
    (index_kept : later.pool.methodIndex = builder.pool.methodIndex) : later.MethodsFound := by
  intro id method named
  rw [Pool.methodNamed?, index_kept] at named
  rw [size_kept]
  exact found id method named

/-- The method that is there after it was added, for the first time or again. -/
theorem MethodsFound.addMethod {builder : Builder} (found : builder.MethodsFound)
    (owner : Handle .type) (signature : Signature) (modifiers : Modifiers) :
    (builder.addMethod owner signature modifiers).1.MethodsFound ∧
      builder.pool.methods.size ≤
        (builder.addMethod owner signature modifiers).1.pool.methods.size ∧
      (builder.addMethod owner signature modifiers).2.index <
        (builder.addMethod owner signature modifiers).1.pool.methods.size := by
  cases named : builder.pool.methodNamed? (signature.idIn (builder.pool.typeAt owner).id) with
  | some method =>
      rw [addMethod_of_known named]
      exact ⟨found, Nat.le_refl _, found _ _ named⟩
  | none =>
      rw [addMethod_of_unknown named]
      have grown : (builder.pushMethod owner signature modifiers).pool.methods.size =
          builder.pool.methods.size + 1 := Array.size_push _
      refine ⟨?_, grown ▸ Nat.le_succ _, grown ▸ Nat.lt_succ_self _⟩
      intro id method known
      change (builder.pool.methodIndex.insert _ _)[id]? = some method at known
      rw [grown]
      rw [Std.TreeMap.getElem?_insert] at known
      split at known
      · obtain rfl := Option.some.inj known
        exact Nat.lt_succ_self _
      · exact Nat.lt_succ_of_lt (found id method known)

/-- The program leads from a builder to a later one and answers the same, whatever elements of bodies
the builder is given first. -/
structure Declares {α : Type} (program : Builder → Except LoadError α) (builder later : Builder)
    (answer : Builder → α) : Prop where
  found : later.MethodsFound
  grows : builder.pool.methods.size ≤ later.pool.methods.size
  answers : ∀ pieces : List Piece,
    (∀ piece ∈ pieces, piece.method.index < builder.pool.methods.size) →
    program (pieces.foldl Piece.add builder) = .ok (answer (pieces.foldl Piece.add later))

namespace Declares

variable {α β : Type} {program : Builder → Except LoadError α} {builder middle later : Builder}
  {answer : Builder → α}

theorem eq_ok (declares : Declares program builder later answer) :
    program builder = .ok (answer later) :=
  declares.answers [] nofun

theorem nothing (found : builder.MethodsFound) (answer : Builder → α) :
    Declares (fun builder => .ok (answer builder)) builder builder answer :=
  ⟨found, Nat.le_refl _, fun _ _ => rfl⟩

theorem bind {last : Builder → β} (first : Declares program builder middle answer)
    (next : α → Except LoadError β)
    (second : Declares (fun builder => next (answer builder)) middle later last) :
    Declares (fun builder => program builder >>= next) builder later last where
  found := second.found
  grows := Nat.le_trans first.grows second.grows
  answers pieces fits := by
    rw [first.answers pieces fits]
    exact second.answers pieces fun piece member =>
      Nat.lt_of_lt_of_le (fits piece member) first.grows

theorem of_eq {other : Builder → Except LoadError α}
    (declares : Declares other builder later answer)
    (same : ∀ builder, program builder = other builder) :
    Declares program builder later answer := by
  rwa [funext same]

/-- What may as well be done before one element is added may be done before any number are. -/
theorem of_commutes (change : Builder → Builder × β)
    (commutes : ∀ builder piece, piece.method.index < builder.pool.methods.size →
      change (Piece.add builder piece) = (Piece.add (change builder).1 piece, (change builder).2))
    (found : (change builder).1.MethodsFound)
    (grows : builder.pool.methods.size ≤ (change builder).1.pool.methods.size) :
    Declares (fun builder => .ok (change builder)) builder (change builder).1
      (·, (change builder).2) where
  found
  grows
  answers pieces fits := by
    clear found grows
    induction pieces generalizing builder with
    | nil => rfl
    | cons piece rest inductionHypothesis =>
        have swapped := commutes builder piece (fits piece List.mem_cons_self)
        rw [List.foldl_cons, List.foldl_cons, inductionHypothesis fun other member => by
          rw [Piece.methods_size_add]
          exact fits other (List.mem_cons_of_mem _ member), swapped]

/-- What commutes with elements and leaves the methods where they are. -/
theorem of_kept {change : Builder → Builder} (found : builder.MethodsFound)
    (commutes : ∀ builder piece, change (Piece.add builder piece) = Piece.add (change builder) piece)
    (size_kept : (change builder).pool.methods.size = builder.pool.methods.size)
    (index_kept : (change builder).pool.methodIndex = builder.pool.methodIndex) :
    Declares (fun builder => .ok (change builder)) builder (change builder) id :=
  have paired : Declares (fun builder => .ok (change builder, ())) builder (change builder) (·, ()) :=
    of_commutes (fun builder => (change builder, ()))
      (fun builder piece _ => by rw [commutes]) (found.of_kept size_kept index_kept)
      (Nat.le_of_eq size_kept.symm)
  paired.bind (fun (builder, _) => .ok builder) (nothing paired.found id)

/-! #### The parts of a declaration -/

theorem type (found : builder.MethodsFound) (id : String) :
    Declares (fun builder => .ok (builder.addType id)) builder (builder.addType id).1
      (·, (builder.addType id).2) := by
  have kept : (builder.addType id).1.pool.methods = builder.pool.methods ∧
      (builder.addType id).1.pool.methodIndex = builder.pool.methodIndex := by
    cases named : builder.pool.typeNamed? id with
    | some type => rw [addType_of_known named]; exact ⟨rfl, rfl⟩
    | none => rw [addType_of_unknown named]; exact ⟨rfl, rfl⟩
  exact of_commutes (addType id) (fun builder piece _ => Piece.addType_add builder piece id)
    (found.of_kept (by rw [kept.1]) kept.2) (Nat.le_of_eq (by rw [kept.1]))

theorem told (found : builder.MethodsFound) (owner : Handle .type)
    (change : TypeDecl → TypeDecl) :
    Declares (fun builder => .ok (builder.changeType owner change)) builder
      (builder.changeType owner change) id :=
  of_kept found (fun builder piece => Piece.changeType_add builder piece owner change) rfl rfl

theorem names (found : builder.MethodsFound) (owner : Handle .type)
    (change : String → TypeDecl → TypeDecl) (names : List String) :
    Declares (fun builder =>
        .ok (names.foldl (fun builder name => builder.changeType owner (change name)) builder))
      builder (names.foldl (fun builder name => builder.changeType owner (change name)) builder) id := by
  induction names generalizing builder with
  | nil => exact nothing found id
  | cons name rest inductionHypothesis =>
      have first := told found owner (change name)
      exact first.bind
        (fun builder =>
          .ok (rest.foldl (fun builder name => builder.changeType owner (change name)) builder))
        (inductionHypothesis first.found)

theorem field (found : builder.MethodsFound) (owner : Handle .type) (name fieldType : String)
    (modifiers : Modifiers) :
    Declares (fun builder => .ok (builder.addField owner name fieldType modifiers).1) builder
      (builder.addField owner name fieldType modifiers).1 id :=
  of_kept found
    (fun builder piece => Piece.addField_add builder piece owner name fieldType modifiers) rfl rfl

theorem method (found : builder.MethodsFound) (owner : Handle .type) (signature : Signature)
    (modifiers : Modifiers) :
    Declares (fun builder => .ok (builder.addMethod owner signature modifiers)) builder
      (builder.addMethod owner signature modifiers).1
      (·, (builder.addMethod owner signature modifiers).2) := by
  have declared := found.addMethod owner signature modifiers
  exact of_commutes (addMethod owner signature modifiers)
    (fun builder piece fits => Piece.addMethod_add builder piece fits owner signature modifiers)
    declared.1 declared.2.1

theorem methodLine (found : builder.MethodsFound) (holder : Handle .method) (line : Option Nat) :
    Declares (fun builder => .ok (builder.setMethodLine holder line)) builder
      (builder.setMethodLine holder line) id :=
  of_kept found (fun builder piece => Piece.setMethodLine_add builder piece holder line)
    (Array.size_modify ..) rfl

end Declares

end Builder

/-! ### Keywords -/

/-- Each keyword is that of a flag. -/
def KnownKeywords (keywords : List String) : Prop :=
  ∀ keyword ∈ keywords, (Modifier.ofKeyword? keyword).isSome

instance (keywords : List String) : Decidable (KnownKeywords keywords) :=
  inferInstanceAs (Decidable (∀ keyword ∈ keywords, _))

theorem readModifiers_of_known {keywords : List String} (known : KnownKeywords keywords)
    (path element : String) :
    readModifiers path element keywords = .ok (keywords.filterMap Modifier.ofKeyword?) := by
  induction keywords with
  | nil => rfl
  | cons keyword rest inductionHypothesis =>
      obtain ⟨modifier, spelled⟩ := Option.isSome_iff_exists.mp (known keyword List.mem_cons_self)
      have read := inductionHypothesis fun other member => known other (List.mem_cons_of_mem _ member)
      rw [readModifiers] at read ⊢
      rw [List.mapM_cons, read, spelled, List.filterMap_cons_some spelled]
      rfl

/-- The keywords of all flags that a type and its members have. -/
def TypeModel.keywords (type : TypeModel) : List String :=
  type.modifiers ++ type.fields.flatMap (·.modifiers) ++ type.methods.flatMap (·.modifiers)

/-- The keywords of all flags in a model. -/
def Model.keywords (model : Model) : List String :=
  model.types.flatMap TypeModel.keywords

/-! ### What a model declares -/

namespace Builder

variable {builder : Builder}

theorem declares_fieldModels (found : builder.MethodsFound) (owner : Handle .type)
    {fields : List FieldModel} (known : KnownKeywords (fields.flatMap (·.modifiers))) :
    ∃ later, ∀ path,
      Declares (fun builder => builder.addFieldModels path owner fields) builder later id := by
  induction fields generalizing builder with
  | nil => exact ⟨builder, fun path => .nothing found id⟩
  | cons field rest inductionHypothesis =>
      rw [List.flatMap_cons] at known
      have read := readModifiers_of_known (known · <| List.mem_append_left _ ·)
      have first := Declares.field found owner field.name field.type
        (field.modifiers.filterMap Modifier.ofKeyword?)
      obtain ⟨later, others⟩ :=
        inductionHypothesis first.found (known · <| List.mem_append_right _ ·)
      refine ⟨later, fun path => (first.bind (addFieldModels path owner · rest) (others path)).of_eq ?_⟩
      intro builder
      rw [addFieldModels, List.foldlM_cons, read]
      rfl

/-- The bodies are those of methods that are there. -/
def BodiesFit (builder : Builder) (pending : PendingBodies) : Prop :=
  ∀ body ∈ pending, body.1.index < builder.pool.methods.size

theorem addMethodModels_cons (path : String) (owner : Handle .type) {method : MethodModel}
    (rest : List MethodModel) (known : KnownKeywords method.modifiers) (builder : Builder) :
    builder.addMethodModels path owner (method :: rest) = (do
      let modifiers := method.modifiers.filterMap Modifier.ofKeyword?
      let (builder, added) ← .ok (builder.addMethod owner method.signature modifiers)
      let builder ← .ok (builder.setMethodLine added method.line)
      let (builder, pending) ← builder.addMethodModels path owner rest
      .ok (builder, (added, method.body) :: pending)) := by
  rw [addMethodModels, readModifiers_of_known known]
  rfl

theorem declares_methodModels (found : builder.MethodsFound) (owner : Handle .type)
    {methods : List MethodModel} (known : KnownKeywords (methods.flatMap (·.modifiers))) :
    ∃ later pending, later.BodiesFit pending ∧ ∀ path,
      Declares (fun builder => builder.addMethodModels path owner methods) builder later
        (·, pending) := by
  induction methods generalizing builder with
  | nil => exact ⟨builder, [], nofun, fun path => .nothing found (·, [])⟩
  | cons method rest inductionHypothesis =>
      rw [List.flatMap_cons] at known
      let modifiers := method.modifiers.filterMap Modifier.ofKeyword?
      let added := (builder.addMethod owner method.signature modifiers).2
      have first := Declares.method found owner method.signature modifiers
      have second := Declares.methodLine first.found added method.line
      obtain ⟨later, pending, fit, others⟩ :=
        inductionHypothesis second.found (known · <| List.mem_append_right _ ·)
      refine ⟨later, (added, method.body) :: pending, List.forall_mem_cons.mpr ⟨?_, fit⟩, ?_⟩
      · have grown := Nat.le_trans second.grows (others "").grows
        exact Nat.lt_of_lt_of_le (found.addMethod owner method.signature modifiers).2.2 grown
      · intro path
        rw [funext (addMethodModels_cons path owner rest (known · <| List.mem_append_left _ ·))]
        exact first.bind _ (second.bind _ ((others path).bind _ (.nothing (others path).found _)))

theorem addTypeModel_of_known (path : String) {type : TypeModel}
    (known : KnownKeywords type.modifiers) (builder : Builder) :
    builder.addTypeModel path type = (do
      let (builder, owner) ← .ok (builder.addType type.id)
      let builder ← .ok (builder.setTypeLine owner type.line)
      let builder ←
        .ok (builder.setTypeModifiers owner (type.modifiers.filterMap Modifier.ofKeyword?))
      let builder ←
        .ok (type.superTypes.foldl (fun builder name => builder.addSuperType owner name) builder)
      let builder ←
        .ok (type.annotations.foldl (fun builder name => builder.addAnnotation owner name) builder)
      let builder ←
        .ok (type.referencedTypes.foldl (fun builder name => builder.addReferencedType owner name)
          builder)
      let builder ← builder.addFieldModels path owner type.fields
      builder.addMethodModels path owner type.methods) := by
  rw [addTypeModel, readModifiers_of_known known]
  rfl

theorem declares_typeModel (found : builder.MethodsFound) {type : TypeModel}
    (known : KnownKeywords type.keywords) :
    ∃ later pending, later.BodiesFit pending ∧ ∀ path,
      Declares (fun builder => builder.addTypeModel path type) builder later (·, pending) := by
  rw [TypeModel.keywords] at known
  let modifiers := type.modifiers.filterMap Modifier.ofKeyword?
  let owner := (builder.addType type.id).2
  have declared := Declares.type found type.id
  have line := Declares.told declared.found owner fun record => { record with line := type.line }
  have flags := Declares.told line.found owner fun record => { record with modifiers }
  have supers := Declares.names flags.found owner
    (fun name record => { record with superTypes := record.superTypes ++ [name] }) type.superTypes
  have annotations := Declares.names supers.found owner
    (fun name record => { record with annotations := record.annotations ++ [name] })
    type.annotations
  have references := Declares.names annotations.found owner
    (fun name record => { record with referencedTypes := record.referencedTypes ++ [name] })
    type.referencedTypes
  obtain ⟨_, fields⟩ := declares_fieldModels references.found owner
    (known · <| List.mem_append_left _ <| List.mem_append_right _ ·)
  obtain ⟨later, pending, fit, methods⟩ := declares_methodModels (fields "").found owner
    (known · <| List.mem_append_right _ ·)
  refine ⟨later, pending, fit, fun path => ?_⟩
  rw [funext (addTypeModel_of_known path
    (known · <| List.mem_append_left _ <| List.mem_append_left _ ·))]
  exact declared.bind _ <| line.bind _ <| flags.bind _ <| supers.bind _ <| annotations.bind _ <|
    references.bind _ <| (fields path).bind _ <| methods path

theorem declares_typeModels (found : builder.MethodsFound) {types : List TypeModel}
    (known : KnownKeywords (types.flatMap TypeModel.keywords)) :
    ∃ later pending, later.BodiesFit pending ∧ ∀ path,
      Declares (fun builder => builder.addTypeModels path types) builder later (·, pending) := by
  induction types generalizing builder with
  | nil => exact ⟨builder, [], nofun, fun path => .nothing found (·, [])⟩
  | cons type rest inductionHypothesis =>
      rw [List.flatMap_cons] at known
      obtain ⟨middle, own, ownFit, first⟩ :=
        declares_typeModel found (known · <| List.mem_append_left _ ·)
      obtain ⟨later, pending, fit, others⟩ :=
        inductionHypothesis (first "").found (known · <| List.mem_append_right _ ·)
      refine ⟨later, own ++ pending, List.forall_mem_append.mpr ⟨?_, fit⟩, fun path => ?_⟩
      · exact fun body member => Nat.lt_of_lt_of_le (ownFit body member) (others "").grows
      · exact (first path).bind _ ((others path).bind _ (.nothing (others path).found _))

/-! ### Models in turn -/

theorem addTypeModels_append (path : String) (builder : Builder) (types others : List TypeModel) :
    builder.addTypeModels path (types ++ others) = (do
      let (builder, pending) ← builder.addTypeModels path types
      let (builder, later) ← builder.addTypeModels path others
      pure (builder, pending ++ later)) := by
  induction types generalizing builder with
  | nil => simp [addTypeModels]
  | cons type rest inductionHypothesis =>
      simp [addTypeModels, inductionHypothesis, List.append_assoc]

theorem MethodsFound.foldl_add (found : builder.MethodsFound) (pieces : List Piece) :
    (pieces.foldl Piece.add builder).MethodsFound := by
  induction pieces generalizing builder with
  | nil => exact found
  | cons piece rest inductionHypothesis =>
      exact inductionHypothesis
        (found.of_kept (Piece.methods_size_add builder piece) (Part.add_methodIndex ..))

/-- Adding a model after another one adds the types of both, whatever the models are called. -/
theorem addModel_append (found : builder.MethodsFound) {types others : List TypeModel}
    (known : KnownKeywords (types.flatMap TypeModel.keywords))
    (othersKnown : KnownKeywords (others.flatMap TypeModel.keywords)) :
    ∃ middle final, middle.MethodsFound ∧
      (∀ path, builder.addModel path { types } = .ok middle) ∧
      (∀ path, middle.addModel path { types := others } = .ok final) ∧
      ∀ path, builder.addModel path { types := types ++ others } = .ok final := by
  obtain ⟨declared, pending, fit, first⟩ := declares_typeModels found known
  obtain ⟨later, waiting, -, second⟩ := declares_typeModels (first "").found othersKnown
  let pieces := pending.flatMap Piece.ofBody
  have pieces_fit : ∀ piece ∈ pieces, piece.method.index < declared.pool.methods.size := by
    intro piece member
    obtain ⟨body, waits, ofBody⟩ := List.mem_flatMap.mp member
    rw [Piece.method_of_mem_ofBody ofBody]
    exact fit body waits
  refine ⟨pending.foldl addBody declared, waiting.foldl addBody (pending.foldl addBody later),
    ?_, fun path => ?_, fun path => ?_, fun path => ?_⟩
  · rw [foldl_addBody]
    exact (first "").found.foldl_add pieces
  · rw [addModel, (first path).eq_ok]
    rfl
  · -- The declarations of the later model commute with the bodies of the earlier one.
    have answers := (second path).answers pieces pieces_fit
    rw [addModel, foldl_addBody declared, answers]
    change Except.ok (waiting.foldl addBody (pieces.foldl Piece.add later)) = _
    rw [foldl_addBody later]
  · rw [addModel, addTypeModels_append, (first path).eq_ok]
    change (do
      let (builder, pending) ← (do
        let (builder, later) ← declared.addTypeModels path others
        pure (builder, pending ++ later))
      pure (pending.foldl addBody builder)) = _
    rw [(second path).eq_ok]
    exact congrArg Except.ok List.foldl_append

/-- Add models in turn, each under its own path. -/
def addModels (builder : Builder) (models : List (String × Model)) : Except LoadError Builder :=
  models.foldlM (fun builder (path, model) => builder.addModel path model) builder

theorem addModels_eq_of_found (found : builder.MethodsFound) {models : List (String × Model)}
    (known : ∀ entry ∈ models, KnownKeywords entry.2.keywords) :
    ∃ final, builder.addModels models = .ok final ∧
      ∀ path, builder.addModel path { types := models.flatMap (·.2.types) } = .ok final := by
  induction models generalizing builder with
  | nil => exact ⟨builder, rfl, fun _ => rfl⟩
  | cons entry rest inductionHypothesis =>
      have restKnown := fun other member => known other (List.mem_cons_of_mem _ member)
      have flatKnown : KnownKeywords ((rest.flatMap (·.2.types)).flatMap TypeModel.keywords) := by
        rw [List.flatMap_assoc]
        intro keyword member
        obtain ⟨other, listed, spelled⟩ := List.mem_flatMap.mp member
        exact restKnown other listed keyword spelled
      obtain ⟨middle, final, middleFound, first, second, whole⟩ :=
        addModel_append found (known entry List.mem_cons_self) flatKnown
      obtain ⟨later, inTurn, atOnce⟩ := inductionHypothesis middleFound restKnown
      obtain rfl : later = final := Except.ok.inj ((atOnce "").symm.trans (second ""))
      refine ⟨later, ?_, whole⟩
      rw [addModels, List.foldlM_cons]
      change builder.addModel entry.1 entry.2 >>= (addModels · rest) = _
      rw [first entry.1]
      exact inTurn

/-- Models of known keywords that are loaded one after the other into a builder load, and come to the
same builder as one model of all their types: the same elements under the same names, and the same
pool and reports at the end. -/
theorem addModels_eq_addModel (reachable : builder.Reachable) (models : List (String × Model))
    (known : ∀ entry ∈ models, KnownKeywords entry.2.keywords) (path : String) :
    ∃ final, builder.addModels models = .ok final ∧
      builder.addModel path { types := models.flatMap (·.2.types) } = .ok final ∧
      (builder.addModels models).map finish =
        (builder.addModel path { types := models.flatMap (·.2.types) }).map finish := by
  obtain ⟨final, inTurn, atOnce⟩ := addModels_eq_of_found (.of_reachable reachable) known
  exact ⟨final, inTurn, atOnce path, by rw [inTurn, atOnce path]⟩

/-- Two models of one type.  The later one lists a method again, with more in its body, and another
method with the body of the lambda of the earlier one. -/
def relistedModels : List (String × Model) :=
  let listed : Signature := { name := "m", params := ["int"], returnType := "void" }
  let body : Signature := { name := "lambda$m$0", params := [], returnType := "void" }
  [("b.json", { types := [{ id := "a.B", modifiers := ["public"], methods :=
      [{ signature := listed, body :=
          { invocations := [{ targetType := "a.B", signature := listed }],
            lambdas := [{ implementation := "<a.B: void lambda$m$0()>" }] } }] }] }),
   ("c.json", { types := [{ id := "a.B", fields := [{ name := "x", type := "int" }], methods :=
      [{ signature := body, modifiers := ["private", "static"] },
       { signature := listed, line := some 7, body :=
          { invocations := [{ targetType := "a.B", signature := listed }] } }] }] })]

theorem addModels_eq_addModel_relisted : Reachable {} ∧
    (∀ entry ∈ relistedModels, KnownKeywords entry.2.keywords) ∧
    (∃ final, addModels {} relistedModels = .ok final ∧
      addModel "all.json" {} { types := relistedModels.flatMap (·.2.types) } = .ok final ∧
      (addModels {} relistedModels).map finish =
        (addModel "all.json" {} { types := relistedModels.flatMap (·.2.types) }).map finish) ∧
    ((addModels {} relistedModels).toOption.map fun final =>
      (final.pool.methods.size, final.pool.invocations.toList.map (·.id))) =
      some (2, ["<a.B: void m(int)>/a.B.m/0", "<a.B: void m(int)>/a.B.m/1"]) := by
  have known : ∀ entry ∈ relistedModels, KnownKeywords entry.2.keywords := by decide +kernel
  exact ⟨.empty, known, addModels_eq_addModel .empty relistedModels known "all.json",
    by decide +kernel⟩

end Builder

end Correlate.Compiled
