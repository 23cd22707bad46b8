/-
Module: Correlate.Proofs.Source.WellFormed
Purpose: What holds of every source file that is built step by step.
Main exports: Step.Known, File.Reachable, Part, Method.Shaped, File.WellFormed,
  File.Reachable.wellFormed
-/
import Correlate.Proofs.Listing
import Correlate.Source.Script

namespace Correlate.Source

/-!
Building a file only ever refers to elements that are there.  Under this condition types and methods
list exactly the elements that name them as their owners, a lambda comes after the method around it,
and only elements of the file carry links.
-/

/-! ### Files that are built -/

/-- A step refers to elements that were added before. -/
def Step.Known (file : File) : Step → Prop
  | .importName _ _ _ => True
  | .type _ parent _ => ∀ outer, parent = some outer → outer.index < file.types.size
  | .anonymousType outer _ => outer.index < file.types.size
  | .field owner _ _ _ => owner.index < file.types.size
  | .placeholderField owner _ _ => owner.index < file.types.size
  | .method owner _ _ _ _ => owner.index < file.types.size
  | .constructor owner _ => owner.index < file.types.size
  | .instanceInitializer owner _ => owner.index < file.types.size
  | .staticInitializer owner _ => owner.index < file.types.size
  | .lambda outer _ => outer.index < file.methods.size
  | .param holder _ _ _ => holder.index < file.methods.size
  | .localVariable holder _ _ _ => holder.index < file.methods.size
  | .invocation holder _ _ _ base target => holder.index < file.methods.size ∧
      (∀ named, base = some named → named.index < file.vars.size) ∧
      ∀ named, target = some named → named.index < file.vars.size
  | .placeholderInvocation holder _ _ _ => holder.index < file.methods.size
  | .allocation holder _ _ _ target => holder.index < file.methods.size ∧
      ∀ named, target = some named → named.index < file.vars.size
  | .placeholderAllocation holder _ _ => holder.index < file.methods.size
  | .fieldAccess holder _ _ _ => holder.index < file.methods.size
  | .outerThis holder _ _ => holder.index < file.methods.size
  | .cast holder _ _ => holder.index < file.methods.size
  | .methodRef holder _ _ _ => holder.index < file.methods.size
  | .stringConstant holder _ _ => holder.index < file.methods.size
  | .typeUsage owner _ _ => owner.index < file.types.size
  | .link element _ => element.index < file.count element.kind

/-- The files that steps reach from an empty one. -/
inductive File.Reachable : File → Prop where
  | empty (path package : String) : Reachable { path, package }
  | perform {file : File} {step : Step} (reachable : Reachable file) (known : step.Known file) :
      Reachable (file.perform step).1

/-- Each of several steps refers to what is there when its turn comes. -/
def File.Admits (file : File) : List Step → Prop
  | [] => True
  | step :: rest => step.Known file ∧ (file.perform step).1.Admits rest

theorem File.Reachable.performAll {file : File} (reachable : file.Reachable) {steps : List Step}
    (admitted : file.Admits steps) : (file.performAll steps).Reachable := by
  induction steps generalizing file with
  | nil => exact reachable
  | cons step rest inductionHypothesis =>
      exact inductionHypothesis (reachable.perform admitted.1) admitted.2

/-! ### Well-formedness -/

theorem Handle.index_injective {kind : Kind} : Function.Injective (@Handle.index kind) := by
  rintro ⟨i⟩ ⟨j⟩ same
  exact congrArg Handle.mk same

/-- What a method consists of besides lambdas: its variables and the elements of its body. -/
inductive Part where
  | receiver
  | parameter
  | localVariable
  | invocation
  | allocation
  | fieldAccess
  | cast
  | methodRef
  | stringConstant

namespace Part

/-- The kind of the elements of a part. -/
def kind : Part → Kind
  | .receiver => .variable
  | .parameter => .variable
  | .localVariable => .variable
  | .invocation => .invocation
  | .allocation => .allocation
  | .fieldAccess => .fieldAccess
  | .cast => .cast
  | .methodRef => .methodRef
  | .stringConstant => .stringConstant

/-- What a file knows of an element of a part. -/
abbrev Entry : Part → Type
  | .receiver => Variable
  | .parameter => Variable
  | .localVariable => Variable
  | .invocation => Invocation
  | .allocation => Allocation
  | .fieldAccess => FieldAccess
  | .cast => Cast
  | .methodRef => MethodRef
  | .stringConstant => StringConstant

/-- The table that holds the elements of a part. -/
def table (file : File) : (part : Part) → Array part.Entry
  | .receiver => file.vars
  | .parameter => file.vars
  | .localVariable => file.vars
  | .invocation => file.invocations
  | .allocation => file.allocations
  | .fieldAccess => file.fieldAccesses
  | .cast => file.casts
  | .methodRef => file.methodRefs
  | .stringConstant => file.stringConstants

/-- The place of the method that an element names as its own, if the element is of the part. -/
def owner : (part : Part) → part.Entry → Option Nat
  | .receiver, held => if held.kind = .receiver then some held.method.index else none
  | .parameter, held =>
      match held.kind with
      | .parameter _ => some held.method.index
      | _ => none
  | .localVariable, held => if held.kind = .localVariable then some held.method.index else none
  | .invocation, call => some call.method.index
  | .allocation, created => some created.method.index
  | .fieldAccess, access => some access.method.index
  | .cast, conversion => some conversion.method.index
  | .methodRef, reference => some reference.method.index
  | .stringConstant, constant => some constant.method.index

/-- The places of the elements that a method lists. -/
def list (method : Method) : Part → List Nat
  | .receiver => method.receiver.toList.map Handle.index
  | .parameter => method.params.map Handle.index
  | .localVariable => method.locals.map Handle.index
  | .invocation => method.invocations.map Handle.index
  | .allocation => method.allocations.map Handle.index
  | .fieldAccess => method.fieldAccesses.map Handle.index
  | .cast => method.casts.map Handle.index
  | .methodRef => method.methodRefs.map Handle.index
  | .stringConstant => method.stringConstants.map Handle.index

end Part

/-- The place of the type that lists a method.  Lambdas are not listed by their types. -/
def Method.owner (method : Method) : Option Nat :=
  if method.kind = .lambda then none else some method.declaring.index

/-- What a method at place `i` of a table tells about its nature: lambdas, and only these, are inside
other methods of the same type, and the reserved names stand for what they are reserved for. -/
structure Method.Shaped (methods : Array Method) (i : Nat) (method : Method) : Prop where
  inside : method.kind = .lambda ↔ method.parent.isSome = true
  before : ∀ outer, method.parent = some outer → outer.index < i
  outer_declaring : ∀ outer record, method.parent = some outer → methods[outer.index]? = some record →
    record.declaring = method.declaring
  undeclared : method.implicit = true → method.name = ReservedName.classInitializer
  block : method.kind = .instanceInitializer → method.name = ReservedName.instanceInitializer

/-- Types and methods list their elements, methods are shaped, and only elements of the file carry
links. -/
structure File.WellFormed (file : File) : Prop where
  fields : Listed file.fields (fun field => some field.declaring.index) file.types
    fun type => type.fields.map Handle.index
  methods : Listed file.methods Method.owner file.types fun type => type.methods.map Handle.index
  usages : Listed file.typeUsages (fun usage => some usage.declaring.index) file.types
    fun type => type.typeUsages.map Handle.index
  lambdas : Listed file.methods (fun method => method.parent.map Handle.index) file.methods
    fun method => method.lambdas.map Handle.index
  parts : ∀ part : Part, Listed (part.table file) part.owner file.methods part.list
  shaped : ∀ {i : Nat} {method}, file.methods[i]? = some method → method.Shaped file.methods i
  linked : ∀ element, file.isLinked element = true → element.index < file.count element.kind

namespace Method

/-- A change that leaves alone what the shape of a method depends on. -/
structure Keeps (change : Method → Method) : Prop where
  kind : ∀ method, (change method).kind = method.kind
  declaring : ∀ method, (change method).declaring = method.declaring
  parent : ∀ method, (change method).parent = method.parent
  name : ∀ method, (change method).name = method.name
  implicit : ∀ method, (change method).implicit = true → method.implicit = true

theorem Keeps.owner {change : Method → Method} (kept : Keeps change) (method : Method) :
    (change method).owner = method.owner := by
  rw [Method.owner, Method.owner, kept.kind, kept.declaring]

variable {methods : Array Method}

theorem Shaped.modify (shaped : ∀ {i : Nat} {method}, methods[i]? = some method →
      method.Shaped methods i) (j : Nat) {change : Method → Method} (kept : Keeps change) {i : Nat}
    {method : Method} (found : (methods.modify j change)[i]? = some method) :
    method.Shaped (methods.modify j change) i := by
  have declaring_kept (k : Nat) (record : Method)
      (recordFound : (methods.modify j change)[k]? = some record) :
      ∃ old, methods[k]? = some old ∧ record.declaring = old.declaring := by
    rw [Array.getElem?_modify] at recordFound
    split at recordFound
    · obtain ⟨old, oldFound, rfl⟩ := Option.map_eq_some_iff.mp recordFound
      exact ⟨old, oldFound, kept.declaring old⟩
    · exact ⟨record, recordFound, rfl⟩
  have shaped_as (old : Method) (oldFound : methods[i]? = some old)
      (kind : method.kind = old.kind) (declaring : method.declaring = old.declaring)
      (parent : method.parent = old.parent) (name : method.name = old.name)
      (implicit : method.implicit = true → old.implicit = true) :
      method.Shaped (methods.modify j change) i := by
    have oldShaped := shaped oldFound
    constructor
    case inside => rw [kind, parent]; exact oldShaped.inside
    case before => rw [parent]; exact oldShaped.before
    case outer_declaring =>
      intro outer record inside recordFound
      obtain ⟨oldOuter, outerFound, same⟩ := declaring_kept _ _ recordFound
      rw [same, declaring]
      exact oldShaped.outer_declaring outer oldOuter (parent ▸ inside) outerFound
    case undeclared => rw [name]; exact fun missing => oldShaped.undeclared (implicit missing)
    case block => rw [kind, name]; exact oldShaped.block
  rw [Array.getElem?_modify] at found
  split at found
  · obtain ⟨old, oldFound, rfl⟩ := Option.map_eq_some_iff.mp found
    exact shaped_as old oldFound (kept.kind old) (kept.declaring old) (kept.parent old)
      (kept.name old) (kept.implicit old)
  · exact shaped_as method found rfl rfl rfl rfl id

theorem Shaped.push (shaped : ∀ {i : Nat} {method}, methods[i]? = some method →
      method.Shaped methods i) {added : Method} (addedShaped : added.Shaped methods methods.size)
    {i : Nat} {method : Method} (found : (methods.push added)[i]? = some method) :
    method.Shaped (methods.push added) i := by
  have shaped_before {method : Method} {k : Nat} (bound : k ≤ methods.size)
      (old : method.Shaped methods k) : method.Shaped (methods.push added) k := by
    refine { old with outer_declaring := fun outer record inside recordFound => ?_ }
    have earlier := old.before outer inside
    rw [Array.getElem?_push, if_neg (by omega)] at recordFound
    exact old.outer_declaring outer record inside recordFound
  rw [Array.getElem?_push] at found
  split at found
  · next last =>
    subst last
    obtain rfl := Option.some.inj found
    exact shaped_before (Nat.le_refl _) addedShaped
  · have bound := (Array.getElem?_eq_some_iff.mp found).1
    exact shaped_before (Nat.le_of_lt bound) (shaped found)

end Method

namespace File.WellFormed

variable {file : File}

theorem empty (path package : String) : WellFormed { path, package } where
  fields := .empty
  methods := .empty
  usages := .empty
  lambdas := .empty
  parts part := by cases part <;> exact .empty
  shaped found := by simp at found
  linked element linked := by simp [File.isLinked, File.link?] at linked

/-- A file with the same links and no fewer elements. -/
theorem linked_of_grown (formed : file.WellFormed) {later : File}
    (links_kept : later.links = file.links)
    (grown : ∀ kind, file.count kind ≤ later.count kind) (element : Ref)
    (linked : later.isLinked element = true) : element.index < later.count element.kind := by
  refine Nat.lt_of_lt_of_le (formed.linked element ?_) (grown element.kind)
  rw [File.isLinked, File.link?, links_kept] at linked
  exact linked

/-! #### Types, fields and used names -/

/-- A file that differs in what the types tell of fields and used names. -/
theorem extendTypes (formed : file.WellFormed) {later : File} {owner : Handle .type}
    (change : TypeDecl → TypeDecl)
    (types_changed : later.types = file.types.modify owner.index change)
    (methods_kept : later.methods = file.methods)
    (methods_listed : ∀ type, (change type).methods = type.methods)
    (fields : Listed later.fields (fun field => some field.declaring.index)
      (file.types.modify owner.index change) fun type => type.fields.map Handle.index)
    (usages : Listed later.typeUsages (fun usage => some usage.declaring.index)
      (file.types.modify owner.index change) fun type => type.typeUsages.map Handle.index)
    (parts_kept : ∀ part : Part, part.table later = part.table file)
    (links_kept : later.links = file.links)
    (grown : ∀ kind, file.count kind ≤ later.count kind) : later.WellFormed where
  fields := by rw [types_changed]; exact fields
  methods := by
    rw [types_changed, methods_kept]
    exact formed.methods.modify_owner _ fun type => by rw [methods_listed]
  usages := by rw [types_changed]; exact usages
  lambdas := by rw [methods_kept]; exact formed.lambdas
  parts part := by rw [parts_kept, methods_kept]; exact formed.parts part
  shaped found := by
    rw [methods_kept] at found ⊢
    exact formed.shaped found
  linked := formed.linked_of_grown links_kept grown

theorem changeType (formed : file.WellFormed) (owner : Handle .type) {change : TypeDecl → TypeDecl}
    (fields_listed : ∀ type, (change type).fields = type.fields)
    (methods_listed : ∀ type, (change type).methods = type.methods)
    (usages_listed : ∀ type, (change type).typeUsages = type.typeUsages) :
    (file.changeType owner change).WellFormed := by
  refine formed.extendTypes change rfl rfl methods_listed ?_ ?_ (fun part => ?_) rfl fun kind => ?_
  · exact formed.fields.modify_owner _ fun type => by rw [fields_listed]
  · exact formed.usages.modify_owner _ fun type => by rw [usages_listed]
  · cases part <;> rfl
  · cases kind <;> simp [File.changeType, File.count]

theorem pushField (formed : file.WellFormed) {field : Field}
    (known : field.declaring.index < file.types.size) : (file.pushField field).1.WellFormed := by
  let listed (type : TypeDecl) : TypeDecl :=
    { type with fields := type.fields ++ [⟨file.fields.size⟩] }
  refine formed.extendTypes listed rfl rfl (fun _ => rfl) ?_ ?_ (fun part => ?_) rfl fun kind => ?_
  · exact formed.fields.push rfl known fun _ _ => List.map_append
  · exact formed.usages.modify_owner _ fun _ => rfl
  · cases part <;> rfl
  · cases kind <;> simp [File.pushField, File.changeType, File.count]

theorem addTypeUsage (formed : file.WellFormed) {declaring : Handle .type}
    (known : declaring.index < file.types.size) (name : String) (position : Option Position) :
    (file.addTypeUsage declaring name position).1.WellFormed := by
  let listed (type : TypeDecl) : TypeDecl :=
    { type with typeUsages := type.typeUsages ++ [⟨file.typeUsages.size⟩] }
  refine formed.extendTypes listed rfl rfl (fun _ => rfl) ?_ ?_ (fun part => ?_) rfl fun kind => ?_
  · exact formed.fields.modify_owner _ fun _ => rfl
  · exact formed.usages.push rfl known fun _ _ => List.map_append
  · cases part <;> rfl
  · cases kind <;> simp [File.addTypeUsage, File.changeType, File.count]

theorem resolveUsage (formed : file.WellFormed) (usage : Handle .typeUsage) (name : String) :
    (file.resolveUsage usage name).WellFormed where
  fields := formed.fields
  methods := formed.methods
  usages := by
    simp only [File.resolveUsage]
    exact formed.usages.modify_entry _ fun _ => rfl
  lambdas := formed.lambdas
  parts part := by
    have part_formed := formed.parts part
    cases part <;> exact part_formed
  shaped := formed.shaped
  linked := by
    have links_kept : (file.resolveUsage usage name).links = file.links := rfl
    apply formed.linked_of_grown links_kept
    intro kind
    cases kind <;> simp [File.resolveUsage, File.count]

/-! #### Bodies -/

section Bodies

variable {method : Handle .method}

/-- A file that differs only in the elements of bodies and what methods tell of them. -/
theorem extendBody (formed : file.WellFormed) {later : File} (change : Method → Method)
    (types_kept : later.types = file.types) (fields_kept : later.fields = file.fields)
    (usages_kept : later.typeUsages = file.typeUsages)
    (methods_changed : later.methods = file.methods.modify method.index change)
    (kept : Method.Keeps change)
    (lambdas_listed : ∀ record, (change record).lambdas = record.lambdas)
    (parts : ∀ part : Part, Listed (part.table later) part.owner
      (file.methods.modify method.index change) part.list)
    (links_kept : later.links = file.links)
    (grown : ∀ kind, file.count kind ≤ later.count kind) : later.WellFormed where
  fields := by rw [types_kept, fields_kept]; exact formed.fields
  methods := by
    rw [types_kept, methods_changed]
    exact formed.methods.modify_entry _ kept.owner
  usages := by rw [types_kept, usages_kept]; exact formed.usages
  lambdas := by
    rw [methods_changed]
    refine (formed.lambdas.modify_entry _ fun record => ?_).modify_owner _ fun record => ?_
    · rw [kept.parent]
    · rw [lambdas_listed]
  parts := by rw [methods_changed]; exact parts
  shaped found := by
    rw [methods_changed] at found ⊢
    exact Method.Shaped.modify formed.shaped _ kept found
  linked := formed.linked_of_grown links_kept grown

theorem declareStaticInitializer (formed : file.WellFormed) (type : Handle .type)
    (position : Option Position) : (file.declareStaticInitializer type position).1.WellFormed := by
  have kept : Method.Keeps (File.declared position) := by
    constructor <;> intro record <;> unfold File.declared <;> split <;> simp_all
  refine formed.extendBody (File.declared position) rfl rfl rfl rfl kept (fun record => ?_)
    (fun part => ?_) rfl fun kind => ?_
  · unfold File.declared
    split <;> rfl
  · have lists_kept (record : Method) :
        part.list (File.declared position record) = part.list record := by
      unfold File.declared
      split <;> cases part <;> rfl
    have part_formed := formed.parts part
    cases part <;> exact part_formed.modify_owner _ lists_kept
  · cases kind <;> simp [File.declareStaticInitializer, File.changeMethod, File.count]

theorem addParam (formed : file.WellFormed) (known : method.index < file.methods.size)
    (name : String) (type : Option String) (position : Option Position) :
    (file.addParam method name type position).1.WellFormed := by
  let listed (record : Method) : Method :=
    { record with params := record.params ++ [⟨file.vars.size⟩] }
  refine formed.extendBody listed rfl rfl rfl rfl ⟨fun _ => rfl, fun _ => rfl, fun _ => rfl,
    fun _ => rfl, fun _ => id⟩ (fun _ => rfl) (fun part => ?_) rfl fun kind => ?_
  · have part_formed := formed.parts part
    cases part with
    | receiver => exact (part_formed.push_unowned rfl).modify_owner _ fun _ => rfl
    | parameter => exact part_formed.push rfl known fun _ _ => List.map_append
    | localVariable => exact (part_formed.push_unowned rfl).modify_owner _ fun _ => rfl
    | _ => exact part_formed.modify_owner _ fun _ => rfl
  · cases kind <;> simp [File.addParam, File.pushVariable, File.changeMethod, File.count]

theorem addLocal (formed : file.WellFormed) (known : method.index < file.methods.size)
    (name : String) (type : Option String) (position : Option Position) :
    (file.addLocal method name type position).1.WellFormed := by
  let listed (record : Method) : Method :=
    { record with locals := record.locals ++ [⟨file.vars.size⟩] }
  refine formed.extendBody listed rfl rfl rfl rfl ⟨fun _ => rfl, fun _ => rfl, fun _ => rfl,
    fun _ => rfl, fun _ => id⟩ (fun _ => rfl) (fun part => ?_) rfl fun kind => ?_
  · have part_formed := formed.parts part
    cases part with
    | receiver => exact (part_formed.push_unowned rfl).modify_owner _ fun _ => rfl
    | parameter => exact (part_formed.push_unowned rfl).modify_owner _ fun _ => rfl
    | localVariable => exact part_formed.push rfl known fun _ _ => List.map_append
    | _ => exact part_formed.modify_owner _ fun _ => rfl
  · cases kind <;> simp [File.addLocal, File.pushVariable, File.changeMethod, File.count]

theorem pushInvocation (formed : file.WellFormed) {call : Invocation}
    (known : call.method.index < file.methods.size) : (file.pushInvocation call).1.WellFormed := by
  let listed (record : Method) : Method :=
    { record with invocations := record.invocations ++ [⟨file.invocations.size⟩] }
  refine formed.extendBody listed rfl rfl rfl rfl ⟨fun _ => rfl, fun _ => rfl, fun _ => rfl,
    fun _ => rfl, fun _ => id⟩ (fun _ => rfl) (fun part => ?_) rfl fun kind => ?_
  · have part_formed := formed.parts part
    cases part with
    | invocation => exact part_formed.push rfl known fun _ _ => List.map_append
    | _ => exact part_formed.modify_owner _ fun _ => rfl
  · cases kind <;> simp [File.pushInvocation, File.changeMethod, File.count]

theorem pushAllocation (formed : file.WellFormed) {created : Allocation}
    (known : created.method.index < file.methods.size) :
    (file.pushAllocation created).1.WellFormed := by
  let listed (record : Method) : Method :=
    { record with allocations := record.allocations ++ [⟨file.allocations.size⟩] }
  refine formed.extendBody listed rfl rfl rfl rfl ⟨fun _ => rfl, fun _ => rfl, fun _ => rfl,
    fun _ => rfl, fun _ => id⟩ (fun _ => rfl) (fun part => ?_) rfl fun kind => ?_
  · have part_formed := formed.parts part
    cases part with
    | allocation => exact part_formed.push rfl known fun _ _ => List.map_append
    | _ => exact part_formed.modify_owner _ fun _ => rfl
  · cases kind <;> simp [File.pushAllocation, File.changeMethod, File.count]

theorem pushFieldAccess (formed : file.WellFormed) {access : FieldAccess}
    (known : access.method.index < file.methods.size) :
    (file.pushFieldAccess access).1.WellFormed := by
  let listed (record : Method) : Method :=
    { record with fieldAccesses := record.fieldAccesses ++ [⟨file.fieldAccesses.size⟩] }
  refine formed.extendBody listed rfl rfl rfl rfl ⟨fun _ => rfl, fun _ => rfl, fun _ => rfl,
    fun _ => rfl, fun _ => id⟩ (fun _ => rfl) (fun part => ?_) rfl fun kind => ?_
  · have part_formed := formed.parts part
    cases part with
    | fieldAccess => exact part_formed.push rfl known fun _ _ => List.map_append
    | _ => exact part_formed.modify_owner _ fun _ => rfl
  · cases kind <;> simp [File.pushFieldAccess, File.changeMethod, File.count]

theorem addCast (formed : file.WellFormed) (known : method.index < file.methods.size)
    (type : String) (position : Option Position) :
    (file.addCast method type position).1.WellFormed := by
  let listed (record : Method) : Method :=
    { record with casts := record.casts ++ [⟨file.casts.size⟩] }
  refine formed.extendBody listed rfl rfl rfl rfl ⟨fun _ => rfl, fun _ => rfl, fun _ => rfl,
    fun _ => rfl, fun _ => id⟩ (fun _ => rfl) (fun part => ?_) rfl fun kind => ?_
  · have part_formed := formed.parts part
    cases part with
    | cast => exact part_formed.push rfl known fun _ _ => List.map_append
    | _ => exact part_formed.modify_owner _ fun _ => rfl
  · cases kind <;> simp [File.addCast, File.changeMethod, File.count]

theorem addMethodRef (formed : file.WellFormed) (known : method.index < file.methods.size)
    (name : String) (targetType : Option String) (position : Option Position) :
    (file.addMethodRef method name targetType position).1.WellFormed := by
  let listed (record : Method) : Method :=
    { record with methodRefs := record.methodRefs ++ [⟨file.methodRefs.size⟩] }
  refine formed.extendBody listed rfl rfl rfl rfl ⟨fun _ => rfl, fun _ => rfl, fun _ => rfl,
    fun _ => rfl, fun _ => id⟩ (fun _ => rfl) (fun part => ?_) rfl fun kind => ?_
  · have part_formed := formed.parts part
    cases part with
    | methodRef => exact part_formed.push rfl known fun _ _ => List.map_append
    | _ => exact part_formed.modify_owner _ fun _ => rfl
  · cases kind <;> simp [File.addMethodRef, File.changeMethod, File.count]

theorem addStringConstant (formed : file.WellFormed) (known : method.index < file.methods.size)
    (value : String)
    (position : Option Position) : (file.addStringConstant method value position).1.WellFormed := by
  let listed (record : Method) : Method :=
    { record with stringConstants := record.stringConstants ++ [⟨file.stringConstants.size⟩] }
  refine formed.extendBody listed rfl rfl rfl rfl ⟨fun _ => rfl, fun _ => rfl, fun _ => rfl,
    fun _ => rfl, fun _ => id⟩ (fun _ => rfl) (fun part => ?_) rfl fun kind => ?_
  · have part_formed := formed.parts part
    cases part with
    | stringConstant => exact part_formed.push rfl known fun _ _ => List.map_append
    | _ => exact part_formed.modify_owner _ fun _ => rfl
  · cases kind <;> simp [File.addStringConstant, File.changeMethod, File.count]

end Bodies

/-! #### Methods -/

/-- A method without elements that is not inside another one is added. -/
theorem pushMethod (formed : file.WellFormed) {method : Method}
    (known : method.declaring.index < file.types.size) (declared : method.kind ≠ .lambda)
    (shaped : method.Shaped file.methods file.methods.size)
    (no_lambdas : method.lambdas.map Handle.index = [])
    (bare : ∀ part : Part, part.list method = []) : (file.pushMethod method).1.WellFormed := by
  have outermost : method.parent = none := by
    cases inside : method.parent with
    | none => rfl
    | some outer => exact absurd (shaped.inside.mpr (by rw [inside]; rfl)) declared
  have owned : method.owner = some method.declaring.index := by rw [Method.owner, if_neg declared]
  let listed (type : TypeDecl) : TypeDecl :=
    { type with methods := type.methods ++ [⟨file.methods.size⟩] }
  let later : File :=
    { file with
      methods := file.methods.push method
      types := file.types.modify method.declaring.index listed }
  have pushed : later.WellFormed := by
    constructor
    case fields => exact formed.fields.modify_owner _ fun _ => rfl
    case methods => exact formed.methods.push owned known fun _ _ => List.map_append
    case usages => exact formed.usages.modify_owner _ fun _ => rfl
    case lambdas =>
      apply (formed.lambdas.push_owner no_lambdas).push_unowned
      rw [outermost]
      rfl
    case parts =>
      intro part
      have part_formed := formed.parts part
      have part_bare := bare part
      cases part <;> exact part_formed.push_owner part_bare
    case shaped => exact Method.Shaped.push formed.shaped shaped
    case linked =>
      have links_kept : later.links = file.links := rfl
      apply formed.linked_of_grown links_kept
      intro kind
      cases kind <;> simp [later, File.count]
  unfold File.pushMethod
  dsimp only
  rw [if_neg declared]
  split
  · exact pushed
  · let received (record : Method) : Method :=
      { record with receiver := some ⟨file.vars.size⟩ }
    have last : later.methods[file.methods.size]? = some method := by simp [later]
    refine pushed.extendBody received rfl rfl rfl rfl ⟨fun _ => rfl, fun _ => rfl, fun _ => rfl,
      fun _ => rfl, fun _ => id⟩ (fun _ => rfl) (fun part => ?_) rfl fun kind => ?_
    · have part_formed := pushed.parts part
      cases part with
      | receiver =>
          refine part_formed.push rfl (Array.getElem?_eq_some_iff.mp last).1 fun holder found => ?_
          obtain rfl : method = holder := Option.some.inj (last.symm.trans found)
          rw [bare .receiver]
          rfl
      | parameter => exact (part_formed.push_unowned rfl).modify_owner _ fun _ => rfl
      | localVariable => exact (part_formed.push_unowned rfl).modify_owner _ fun _ => rfl
      | _ => exact part_formed.modify_owner _ fun _ => rfl
    · cases kind <;> simp [later, File.pushVariable, File.changeMethod, File.changeType, File.count]

/-- A lambda is added and listed by the method around it. -/
theorem addLambda (formed : file.WellFormed) {parent : Handle .method}
    (known : parent.index < file.methods.size) (position : Option Position) :
    (file.addLambda parent position).1.WellFormed := by
  let method : Method :=
    { position, kind := .lambda, declaring := (file.methodAt parent).declaring, parent := some parent
      name := s!"lambda${file.lambdaCount}", returnType := none, isStatic := true, implicit := false }
  let listed (record : Method) : Method :=
    { record with lambdas := record.lambdas ++ [⟨file.methods.size⟩] }
  have kept : Method.Keeps listed :=
    ⟨fun _ => rfl, fun _ => rfl, fun _ => rfl, fun _ => rfl, fun _ => id⟩
  have shaped : method.Shaped file.methods file.methods.size := by
    constructor
    case inside => exact ⟨fun _ => rfl, fun _ => rfl⟩
    case before => rintro outer ⟨⟩; exact known
    case outer_declaring =>
      rintro outer record ⟨⟩ found
      simp only [method, File.methodAt, found, Option.getD_some]
    case undeclared => exact fun missing => absurd missing Bool.false_ne_true
    case block => exact nofun
  have methods_after : (file.addLambda parent position).1.methods =
      (file.methods.push method).modify parent.index listed := rfl
  constructor
  case fields => exact formed.fields
  case methods =>
    rw [methods_after]
    exact (formed.methods.push_unowned rfl).modify_entry _ kept.owner
  case usages => exact formed.usages
  case lambdas =>
    rw [methods_after]
    have grown : parent.index < (file.methods.push method).size := by
      rw [Array.size_push]; exact Nat.lt_succ_of_lt known
    have owner_added : Listed file.methods (fun method => method.parent.map Handle.index)
        (file.methods.push method) fun method => method.lambdas.map Handle.index :=
      formed.lambdas.push_owner rfl
    have entry_added : Listed (file.methods.push method)
        (fun method => method.parent.map Handle.index)
        ((file.methods.push method).modify parent.index listed)
        fun method => method.lambdas.map Handle.index :=
      owner_added.push rfl grown fun _ _ => List.map_append
    exact entry_added.modify_entry _ fun _ => rfl
  case parts =>
    intro part
    rw [methods_after]
    have part_formed := formed.parts part
    cases part <;> exact (part_formed.push_owner rfl).modify_owner _ fun _ => rfl
  case shaped =>
    intro i record found
    rw [methods_after] at found ⊢
    exact Method.Shaped.modify (Method.Shaped.push formed.shaped shaped) _ kept found
  case linked =>
    refine formed.linked_of_grown rfl fun kind => ?_
    cases kind <;> simp [File.addLambda, File.pushMethod, File.changeMethod, File.count]

/-! #### Whole files -/

theorem addMethodOfKind (formed : file.WellFormed) {method : Method}
    (known : method.declaring.index < file.types.size) (outermost : method.parent = none)
    (declared : method.kind ≠ .lambda)
    (undeclared : method.implicit = true → method.name = ReservedName.classInitializer)
    (block : method.kind = .instanceInitializer → method.name = ReservedName.instanceInitializer)
    (no_lambdas : method.lambdas.map Handle.index = [])
    (bare : ∀ part : Part, part.list method = []) : (file.pushMethod method).1.WellFormed := by
  refine formed.pushMethod known declared ?_ no_lambdas bare
  constructor
  case inside => simp [declared, outermost]
  case before => simp [outermost]
  case outer_declaring => simp [outermost]
  case undeclared => exact undeclared
  case block => exact block

theorem addMethod (formed : file.WellFormed) {declaring : Handle .type}
    (known : declaring.index < file.types.size) (name : String) (returnType : Option String)
    (isStatic : Bool) (position : Option Position) :
    (file.addMethod declaring name returnType isStatic position).1.WellFormed := by
  unfold File.addMethod
  exact formed.addMethodOfKind known rfl nofun nofun nofun rfl fun part => by cases part <;> rfl

theorem addInstanceInitializer (formed : file.WellFormed) {declaring : Handle .type}
    (known : declaring.index < file.types.size) (position : Option Position) :
    (file.addInstanceInitializer declaring position).1.WellFormed := by
  unfold File.addInstanceInitializer
  exact formed.addMethodOfKind known rfl nofun nofun (fun _ => rfl) rfl fun part => by
    cases part <;> rfl

theorem pushType (formed : file.WellFormed) (name binaryName : String)
    (parent : Option (Handle .type)) (anonymous : Bool) (position : Option Position) :
    (file.pushType name binaryName parent anonymous position).1.WellFormed := by
  let type : TypeDecl :=
    { position, name, binaryName, parent, anonymous, classInitializer := ⟨file.methods.size⟩ }
  let later : File := { file with types := file.types.push type }
  have pushed : later.WellFormed := by
    constructor
    case fields => exact formed.fields.push_owner rfl
    case methods => exact formed.methods.push_owner rfl
    case usages => exact formed.usages.push_owner rfl
    case lambdas => exact formed.lambdas
    case parts =>
      intro part
      have part_formed := formed.parts part
      cases part <;> exact part_formed
    case shaped => exact formed.shaped
    case linked =>
      have links_kept : later.links = file.links := rfl
      apply formed.linked_of_grown links_kept
      intro kind
      cases kind <;> simp [later, File.count]
  have known : file.types.size < later.types.size := by simp [later]
  exact pushed.addMethodOfKind known rfl nofun (fun _ => rfl) nofun rfl fun part => by
    cases part <;> rfl

theorem setLink (formed : file.WellFormed) {element : Ref} {link : Link} {linked : File}
    (known : element.index < file.count element.kind)
    (changed : file.setLink? element link = some linked) :
    linked.WellFormed := by
  unfold File.setLink? at changed
  split at changed
  · cases changed
  · obtain rfl := Option.some.inj changed
    constructor
    case fields => exact formed.fields
    case methods => exact formed.methods
    case usages => exact formed.usages
    case lambdas => exact formed.lambdas
    case parts =>
      intro part
      have part_formed := formed.parts part
      cases part <;> exact part_formed
    case shaped => exact formed.shaped
    case linked =>
      intro other otherLinked
      have kinds_kept : ({ file with links := file.links.insert element link } : File).count
          other.kind = file.count other.kind := by
        cases other.kind <;> rfl
      rw [kinds_kept]
      by_cases same : element = other
      · exact same ▸ known
      · apply formed.linked other
        simpa [File.isLinked, File.link?, Std.TreeMap.getElem?_insert, same] using otherLinked

theorem addImport (formed : file.WellFormed) (declaration : Import) :
    (file.addImport declaration).WellFormed where
  fields := formed.fields
  methods := formed.methods
  usages := formed.usages
  lambdas := formed.lambdas
  parts part := by
    have part_formed := formed.parts part
    cases part <;> exact part_formed
  shaped := formed.shaped
  linked := formed.linked

theorem perform (formed : file.WellFormed) {step : Step} (known : step.Known file) :
    (file.perform step).1.WellFormed := by
  cases step with
  | importName text isStatic position => exact formed.addImport _
  | type name parent position => exact formed.pushType _ _ _ _ _
  | anonymousType parent position =>
      unfold File.perform named File.addAnonymousType
      refine pushType (formed.changeType _ ?_ ?_ ?_) _ _ _ _ _ <;> exact fun _ => rfl
  | field declaring name type position => exact formed.pushField known
  | placeholderField declaring name type => exact formed.pushField known
  | method declaring name returnType isStatic position =>
      exact formed.addMethod known name returnType isStatic position
  | constructor declaring position => exact formed.addMethod known _ none false position
  | instanceInitializer declaring position => exact formed.addInstanceInitializer known position
  | staticInitializer type position => exact formed.declareStaticInitializer type position
  | lambda parent position => exact formed.addLambda known position
  | param method name type position => exact formed.addParam known name type position
  | localVariable method name type position => exact formed.addLocal known name type position
  | invocation method name arity position base target => exact formed.pushInvocation known.1
  | placeholderInvocation method name arity line => exact formed.pushInvocation known
  | allocation method type dimensions position target => exact formed.pushAllocation known.1
  | placeholderAllocation method type line => exact formed.pushAllocation known
  | fieldAccess method name kind position => exact formed.pushFieldAccess known
  | outerThis method qualifier position => exact formed.pushFieldAccess known
  | cast method type position => exact formed.addCast known type position
  | methodRef method name targetType position =>
      exact formed.addMethodRef known name targetType position
  | stringConstant method value position => exact formed.addStringConstant known value position
  | typeUsage declaring name position => exact formed.addTypeUsage known name position
  | link element link =>
      unfold File.perform
      dsimp only
      split
      · next linked changed => exact formed.setLink known changed
      · exact formed

end File.WellFormed

theorem File.Reachable.wellFormed {file : File} (reachable : file.Reachable) : file.WellFormed := by
  induction reachable with
  | empty path package => exact .empty path package
  | perform _ known inductionHypothesis => exact inductionHypothesis.perform known

end Correlate.Source
