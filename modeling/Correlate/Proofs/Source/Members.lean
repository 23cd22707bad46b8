/-
Module: Correlate.Proofs.Source.Members
Purpose: The members of a type that is read are shown by the type.
Main exports: File.TypesKept, File.MembersRead, File.MethodRead, File.TypeShown.lowerMembers
-/
import Correlate.Proofs.Source.Reading

namespace Correlate.Source

/-!
The members of a type are read one after the other: fields, initializers, methods, used names.  After
each of them the type shows what has been read so far.  Static initializers all add to the class
initializer, which is the first method of the type; any other method is left alone once it is read.
-/

variable {file middle later : File} {type : Handle .type} {method : Handle .method}
  {parent : Option (Handle .type)} {node : TypeNode}

namespace File

/-! ### Types that are left alone -/

/-- Types that are there stay as they are, but for the touched ones and for the number of anonymous
types in them. -/
def TypesKept (touched : Nat → Prop) (file later : File) : Prop :=
  ∀ type : Handle .type, type.index < file.types.size → ¬ touched type.index →
    ∃ anonymousCount, later.typeAt type = { file.typeAt type with anonymousCount }

namespace TypesKept

variable {touched others : Nat → Prop}

theorem refl (touched : Nat → Prop) (file : File) : file.TypesKept touched file :=
  fun _ _ _ => ⟨_, rfl⟩

theorem trans (first : file.TypesKept touched middle) (second : middle.TypesKept others later)
    (grown : file.types.size ≤ middle.types.size)
    (within : ∀ i, i < file.types.size → others i → touched i) : file.TypesKept touched later := by
  intro type known untouched
  obtain ⟨_, same⟩ := first type known untouched
  obtain ⟨anonymousCount, laterSame⟩ := second type (Nat.lt_of_lt_of_le known grown)
    fun hit => untouched (within _ known hit)
  exact ⟨anonymousCount, by rw [laterSame, same]⟩

end TypesKept

/-- What was found at some places of a table is found there in a longer one. -/
theorem map_found_grown {α β γ : Type} {table longer : Array α} (grown : Grown table longer)
    {places : List β} {place : β → Nat} {entries : List γ} {told : γ → α}
    (shown : (places.map fun listed => table[place listed]?) = entries.map fun entry =>
      some (told entry)) :
    (places.map fun listed => longer[place listed]?) = entries.map fun entry =>
      some (told entry) := by
  induction places generalizing entries with
  | nil =>
      cases entries with
      | nil => rfl
      | cons => cases shown
  | cons listed rest inductionHypothesis =>
      cases entries with
      | nil => cases shown
      | cons entry others =>
          rw [List.map_cons, List.map_cons, List.cons.injEq] at shown
          rw [List.map_cons, List.map_cons, grown _ _ shown.1, inductionHypothesis shown.2]

theorem forall₂_mono_left {α β : Type} {relation other : α → β → Prop} {list : List α}
    {entries : List β} (related : List.Forall₂ relation list entries)
    (lift : ∀ one ∈ list, ∀ entry, relation one entry → other one entry) :
    List.Forall₂ other list entries := by
  induction related with
  | nil => exact .nil
  | cons first _ inductionHypothesis =>
      exact .cons (lift _ List.mem_cons_self _ first)
        (inductionHypothesis fun one member => lift one (List.mem_cons_of_mem _ member))

/-- A type stays shown while none of its methods is touched. -/
theorem TypeShown.prolong {touched : Nat → Prop} (shown : file.TypeShown type parent node)
    (formed : file.WellFormed) (prolongs : file.Prolongs touched later)
    (kept : ∃ anonymousCount, later.typeAt type = { file.typeAt type with anonymousCount })
    (untouched : ∀ method ∈ (file.typeAt type).methods, ∀ inner, file.Within method inner →
      ¬ touched inner.index) : later.TypeShown type parent node := by
  obtain ⟨anonymousCount, same⟩ := kept
  constructor
  case fields => rw [same]; exact map_found_grown prolongs.fields shown.fields
  case typeUsages => rw [same]; exact map_found_grown prolongs.typeUsages shown.typeUsages
  case methods =>
    rw [same]
    exact forall₂_mono_left shown.methods fun method listed outline methodShown =>
      methodShown.prolong formed prolongs (formed.method_of_listed listed).1
        (untouched method listed)
  all_goals rw [same]
  case parent => exact shown.parent
  case position => exact shown.position
  case anonymous => exact shown.anonymous
  case name => exact shown.name

/-! ### Reading members -/

/-- What reading members of a type makes of a file: no other type changes, and no method that was
there but the class initializer of the type. -/
structure MembersRead (file later : File) (type : Handle .type) : Prop where
  reachable : later.Reachable
  prolongs : file.Prolongs (· = (file.typeAt type).classInitializer.index) later
  types_size : later.types.size = file.types.size
  types : file.TypesKept (· = type.index) later
  classInitializer : (later.typeAt type).classInitializer = (file.typeAt type).classInitializer

namespace MembersRead

theorem refl (reachable : file.Reachable) (type : Handle .type) : file.MembersRead file type :=
  ⟨reachable, .refl _ file, rfl, .refl _ file, rfl⟩

theorem trans (first : file.MembersRead middle type) (second : middle.MembersRead later type) :
    file.MembersRead later type where
  reachable := second.reachable
  prolongs := first.prolongs.trans second.prolongs fun _ _ hit =>
    hit.trans (congrArg Handle.index first.classInitializer)
  types_size := second.types_size.trans first.types_size
  types := first.types.trans second.types (Nat.le_of_eq first.types_size.symm) fun _ _ => id
  classInitializer := second.classInitializer.trans first.classInitializer

end MembersRead

theorem typeAt_changeType_self (known : type.index < file.types.size)
    (change : TypeDecl → TypeDecl) :
    (file.changeType type change).typeAt type = change (file.typeAt type) := by
  simp [File.typeAt, changeType, Array.getElem_modify, known]

theorem typeAt_changeType_other {other : Handle .type} (differ : other.index ≠ type.index)
    (change : TypeDecl → TypeDecl) :
    (file.changeType type change).typeAt other = file.typeAt other := by
  simp [File.typeAt, changeType, Array.getElem?_modify, Ne.symm differ]

theorem typesKept_changeType {change : TypeDecl → TypeDecl}
    (types_changed : later.types = file.types.modify type.index change) :
    file.TypesKept (· = type.index) later := by
  intro other _ differ
  refine ⟨(file.typeAt other).anonymousCount, ?_⟩
  have same := @typeAt_changeType_other file _ _ differ change
  rw [File.typeAt, changeType] at same
  rw [File.typeAt, types_changed]
  exact same

/-- A file that differs in one type, and has more elements. -/
theorem prolongs_of_changeType (touched : Nat → Prop) {change : TypeDecl → TypeDecl}
    (header : later.path = file.path ∧ later.package = file.package ∧
      later.imports = file.imports ∧ later.links = file.links)
    (types_changed : later.types = file.types.modify type.index change)
    (named : ∀ record, (change record).binaryName = record.binaryName)
    (methods : Grown file.methods later.methods)
    (parts : ∀ part : Part, Grown (part.table file) (part.table later))
    (fields : Grown file.fields later.fields)
    (typeUsages : Grown file.typeUsages later.typeUsages) : file.Prolongs touched later where
  path := header.1
  package := header.2.1
  imports := header.2.2.1
  links := header.2.2.2
  parts := parts
  fields := fields
  typeUsages := typeUsages
  methods_size := methods.size_le
  methods i known _ := by
    rw [methods _ _ (Array.getElem?_eq_getElem known), Array.getElem?_eq_getElem known]
  types_size := Nat.le_of_eq (by rw [types_changed, Array.size_modify])
  binaryName other _ := by
    rw [File.typeAt, File.typeAt, types_changed, Array.getElem?_modify]
    split
    · cases file.types[other.index]? <;> simp [named]
    · rfl

theorem MembersRead.of_changeType {change : TypeDecl → TypeDecl} (reachable : later.Reachable)
    (known : type.index < file.types.size)
    (types_changed : later.types = file.types.modify type.index change)
    (initializer_kept : ∀ record, (change record).classInitializer = record.classInitializer)
    (prolongs : file.Prolongs (· = (file.typeAt type).classInitializer.index) later) :
    file.MembersRead later type where
  reachable := reachable
  prolongs := prolongs
  types_size := by rw [types_changed, Array.size_modify]
  types := typesKept_changeType types_changed
  classInitializer := by
    have same := typeAt_changeType_self known change
    rw [File.typeAt, changeType] at same
    rw [File.typeAt, types_changed]
    exact (congrArg TypeDecl.classInitializer same).trans (initializer_kept _)

/-- Members of one kind that are read in order. -/
theorem TypeShown.foldlM {α : Type} {step : File → α → Except ReadError File}
    (place : List α → TypeNode)
    (reads : ∀ {file later : File} {done : List α} {item : α}, file.Reachable →
      type.index < file.types.size → file.TypeShown type parent (place done) →
      step file item = .ok later →
      file.MembersRead later type ∧ later.TypeShown type parent (place (done ++ [item])))
    {items done : List α} (reachable : file.Reachable) (known : type.index < file.types.size)
    (shown : file.TypeShown type parent (place done)) (lowered : items.foldlM step file = .ok later) :
    file.MembersRead later type ∧ later.TypeShown type parent (place (done ++ items)) := by
  induction items generalizing file done with
  | nil =>
      obtain rfl := Except.ok.inj lowered
      exact ⟨.refl reachable type, by rw [List.append_nil]; exact shown⟩
  | cons item rest inductionHypothesis =>
      rw [List.foldlM_cons] at lowered
      obtain ⟨middle, first, others⟩ := bind_eq_ok_iff.mp lowered
      obtain ⟨read, itemShown⟩ := reads reachable known shown first
      obtain ⟨restRead, restShown⟩ := inductionHypothesis read.reachable
        (read.types_size ▸ known) itemShown others
      rw [List.append_assoc] at restShown
      exact ⟨read.trans restRead, restShown⟩

/-- Members of one kind that are added in order. -/
theorem TypeShown.foldl {α : Type} {step : File → α → File} (place : List α → TypeNode)
    (reads : ∀ {file : File} {done : List α} {item : α}, file.Reachable →
      type.index < file.types.size → file.TypeShown type parent (place done) →
      file.MembersRead (step file item) type ∧
        (step file item).TypeShown type parent (place (done ++ [item])))
    (items : List α) {done : List α} (reachable : file.Reachable)
    (known : type.index < file.types.size) (shown : file.TypeShown type parent (place done)) :
    file.MembersRead (items.foldl step file) type ∧
      (items.foldl step file).TypeShown type parent (place (done ++ items)) := by
  have lowered : items.foldlM (fun file item => Except.ok (step file item)) file =
      (.ok (items.foldl step file) : Except ReadError File) := List.foldlM_pure
  refine TypeShown.foldlM place (fun itemReachable itemKnown itemShown first => ?_) reachable known
    shown lowered
  obtain rfl := Except.ok.inj first
  exact reads itemReachable itemKnown itemShown

/-- A type with more members shows what it is told to, if nothing else is said of it. -/
theorem TypeShown.withMembers {told : TypeNode} (shown : file.TypeShown type parent node)
    (record : ∃ fields methods typeUsages, later.typeAt type =
      { file.typeAt type with fields, methods, typeUsages })
    (name : told.name = node.name) (position : told.position = node.position)
    (fields : ((later.typeAt type).fields.map fun field => later.fields[field.index]?) =
      told.fields.map fun field => some
        { position := field.position, authoritative := true, declaring := type, name := field.name
          type := field.type })
    (methods : List.Forall₂ (later.MethodShown type) (later.typeAt type).methods told.outlines)
    (typeUsages : ((later.typeAt type).typeUsages.map fun usage =>
        later.typeUsages[usage.index]?) =
      told.typeUses.map fun usage => some
        { position := usage.position, declaring := type, name := usage.name }) :
    later.TypeShown type parent told := by
  obtain ⟨_, _, _, same⟩ := record
  refine ⟨?_, ?_, ?_, ?_, fields, methods, typeUsages⟩
  all_goals rw [same]
  · exact shown.parent
  · rw [position]; exact shown.position
  · rw [name]; exact shown.anonymous
  · rw [name]; exact shown.name

/-- The methods of a type stay shown while none of them is touched. -/
theorem TypeShown.methods_prolong {touched : Nat → Prop} (shown : file.TypeShown type parent node)
    (formed : file.WellFormed) (prolongs : file.Prolongs touched later)
    (untouched : ∀ method ∈ (file.typeAt type).methods, ∀ inner, file.Within method inner →
      ¬ touched inner.index) :
    List.Forall₂ (later.MethodShown type) (file.typeAt type).methods node.outlines :=
  forall₂_mono_left shown.methods fun method listed _ methodShown =>
    methodShown.prolong formed prolongs (formed.method_of_listed listed).1 (untouched method listed)

/-! #### Fields and used names -/

theorem TypeShown.addField (shown : file.TypeShown type parent node) (reachable : file.Reachable)
    (known : type.index < file.types.size) (field : FieldNode) :
    let later := (file.addField type field.name field.type field.position).1
    file.MembersRead later type ∧
      later.TypeShown type parent { node with fields := node.fields ++ [field] } := by
  intro later
  let change (record : TypeDecl) : TypeDecl :=
    { record with fields := record.fields ++ [⟨file.fields.size⟩] }
  have types_changed : later.types = file.types.modify type.index change := rfl
  have grown : Grown file.fields later.fields := .push _ _
  have prolongs (touched : Nat → Prop) : file.Prolongs touched later :=
    prolongs_of_changeType touched ⟨rfl, rfl, rfl, rfl⟩ types_changed (fun _ => rfl) (.refl _)
      (fun part => by cases part <;> exact .refl _) grown (.refl _)
  have record : later.typeAt type = change (file.typeAt type) := typeAt_changeType_self known change
  have laterReachable : later.Reachable :=
    @Reachable.perform file (.field type field.name field.type field.position) reachable known
  refine ⟨.of_changeType laterReachable known types_changed (fun _ => rfl) (prolongs _), ?_⟩
  refine shown.withMembers ⟨_, _, _, record⟩ rfl rfl ?_ ?_ ?_ <;> rw [record]
  · rw [List.map_append, List.map_append, map_found_grown grown shown.fields]
    exact congrArg (_ ++ [·]) Array.getElem?_push_size
  · exact shown.methods_prolong reachable.wellFormed (prolongs fun _ => False) fun _ _ _ _ => id
  · exact shown.typeUsages

theorem TypeShown.addTypeUsage (shown : file.TypeShown type parent node)
    (reachable : file.Reachable) (known : type.index < file.types.size) (usage : TypeUseNode) :
    let later := (file.addTypeUsage type usage.name usage.position).1
    file.MembersRead later type ∧
      later.TypeShown type parent { node with typeUses := node.typeUses ++ [usage] } := by
  intro later
  let change (record : TypeDecl) : TypeDecl :=
    { record with typeUsages := record.typeUsages ++ [⟨file.typeUsages.size⟩] }
  have types_changed : later.types = file.types.modify type.index change := rfl
  have grown : Grown file.typeUsages later.typeUsages := .push _ _
  have prolongs (touched : Nat → Prop) : file.Prolongs touched later :=
    prolongs_of_changeType touched ⟨rfl, rfl, rfl, rfl⟩ types_changed (fun _ => rfl) (.refl _)
      (fun part => by cases part <;> exact .refl _) (.refl _) grown
  have record : later.typeAt type = change (file.typeAt type) := typeAt_changeType_self known change
  have laterReachable : later.Reachable :=
    @Reachable.perform file (.typeUsage type usage.name usage.position) reachable known
  refine ⟨.of_changeType laterReachable known types_changed (fun _ => rfl) (prolongs _), ?_⟩
  refine shown.withMembers ⟨_, _, _, record⟩ rfl rfl ?_ ?_ ?_ <;> rw [record]
  · exact shown.fields
  · exact shown.methods_prolong reachable.wellFormed (prolongs fun _ => False) fun _ _ _ _ => id
  · rw [List.map_append, List.map_append, map_found_grown grown shown.typeUsages]
    exact congrArg (_ ++ [·]) Array.getElem?_push_size

/-! #### Methods -/

end File

/-- The method that an outline starts as. -/
def Outline.start (outline : Outline) (type : Handle .type) : Method :=
  { position := outline.position, kind := outline.kind, declaring := type, parent := none
    name := outline.name, returnType := outline.returnType, isStatic := outline.isStatic
    implicit := outline.implicit }

namespace File

variable {outline : Outline}

theorem methods_pushMethod (file : File) (record : Method) : ∃ receiver,
    (file.pushMethod record).1.methods = file.methods.push { record with receiver } := by
  unfold pushMethod
  dsimp only
  by_cases static : record.isStatic = true
  · rw [if_pos static]
    refine ⟨record.receiver, ?_⟩
    split <;> rfl
  · rw [if_neg static]
    refine ⟨some ⟨file.vars.size⟩, ?_⟩
    have pushed := Founded.modify_push_size file.methods record fun record =>
      { record with receiver := some ⟨file.vars.size⟩ }
    split <;> exact pushed

theorem types_pushMethod {record : Method} (declared : record.kind ≠ .lambda) :
    (file.pushMethod record).1.types = file.types.modify record.declaring.index fun type =>
      { type with methods := type.methods ++ [⟨file.methods.size⟩] } := by
  unfold pushMethod
  dsimp only
  rw [if_neg declared]
  split <;> rfl

theorem prolongs_pushMethod (touched : Nat → Prop) {record : Method}
    (declared : record.kind ≠ .lambda) :
    file.Prolongs touched (file.pushMethod record).1 := by
  obtain ⟨receiver, methods_pushed⟩ := file.methods_pushMethod record
  refine prolongs_of_changeType touched ?_ (types_pushMethod declared) (fun _ => rfl) ?_
    (fun part => ?_) ?_ ?_
  · unfold pushMethod
    dsimp only
    rw [if_neg declared]
    split <;> exact ⟨rfl, rfl, rfl, rfl⟩
  · rw [methods_pushed]
    exact .push _ _
  all_goals
    unfold pushMethod
    dsimp only
    rw [if_neg declared]
  · split <;> cases part <;> first | exact .refl _ | exact .push _ _
  · split <;> exact .refl _
  · split <;> exact .refl _

theorem methodAt_pushMethod (file : File) (record : Method) : ∃ receiver,
    (file.pushMethod record).1.methodAt ⟨file.methods.size⟩ = { record with receiver } := by
  obtain ⟨receiver, methods_pushed⟩ := file.methods_pushMethod record
  refine ⟨receiver, ?_⟩
  rw [File.methodAt, methods_pushed, Array.getElem?_push_size]
  rfl

/-- What it makes of a file to add a method after those of its type and to read what it holds. -/
structure MethodRead (file later : File) (type : Handle .type) (outline : Outline) : Prop where
  reachable : later.Reachable
  prolongs : ∀ touched, file.Prolongs touched later
  types : later.types = file.types.modify type.index fun record =>
    { record with methods := record.methods ++ [⟨file.methods.size⟩] }
  shown : later.MethodShown type ⟨file.methods.size⟩ outline

theorem methodRead (declared : outline.kind ≠ .lambda)
    (addedReachable : (file.pushMethod (outline.start type)).1.Reachable)
    (lowered : ((file.pushMethod (outline.start type)).1.lowerParams ⟨file.methods.size⟩
      outline.params).lowerBody maxLambdaNesting ⟨file.methods.size⟩ outline.body = .ok later) :
    file.MethodRead later type outline := by
  let method : Handle .method := ⟨file.methods.size⟩
  let added := (file.pushMethod (outline.start type)).1
  let middle := added.lowerParams method outline.params
  obtain ⟨receiver, self⟩ := file.methodAt_pushMethod (outline.start type)
  have addedKnown : method.index < added.methods.size := by
    obtain ⟨_, methods_pushed⟩ := file.methods_pushMethod (outline.start type)
    rw [methods_pushed, Array.size_push]
    exact Nat.lt_succ_self _
  have bare : added.ParamsShown method [] := by
    rw [ParamsShown, Part.entries, self]
    rfl
  obtain ⟨paramsRead, paramsShown⟩ := bare.lowerParams addedReachable addedKnown outline.params
  have middleKnown := Nat.lt_of_lt_of_le addedKnown paramsRead.prolongs.methods_size
  obtain ⟨params, record⟩ := paramsRead.record
  have middleSelf : middle.methodAt method = { outline.start type with receiver, params } := by
    rw [record, self]
  have alone : (middle.methodAt method).parent = none := by
    rw [middleSelf]
    rfl
  have empty : middle.BodyShown (middle.scopeAround method) method [] :=
    .nil (fun part isBody => by rw [middleSelf]; cases part <;> first | rfl | cases isBody)
      (by rw [middleSelf]; rfl)
  obtain ⟨bodyRead, bodyShown⟩ :=
    lowerBody_shown maxLambdaNesting paramsRead.reachable middleKnown empty lowered
  rw [scopeAround_of_outermost alone] at bodyShown
  have read {α : Type} (observe : Method → α)
      (blind : ∀ record : Method, observe record.head = observe record) :
      observe (later.methodAt method) = observe { outline.start type with receiver, params } := by
    rw [bodyRead.head.read observe blind, middleSelf]
  refine ⟨bodyRead.reachable, fun touched => ?_, ?_, ⟨?_, ?_, ?_, ?_, ?_, ?_, ?_, ?_, ?_, bodyShown⟩⟩
  · exact ((prolongs_pushMethod touched declared).trans paramsRead.prolongs
      fun i old new => absurd new (Nat.ne_of_lt old)).trans bodyRead.prolongs
      fun i old new => absurd new (Nat.ne_of_lt old)
  · exact (bodyRead.types.trans paramsRead.types).trans (types_pushMethod declared)
  · exact read Method.kind fun _ => rfl
  · exact read Method.declaring fun _ => rfl
  · exact read Method.parent fun _ => rfl
  · exact read Method.name fun _ => rfl
  · exact read Method.returnType fun _ => rfl
  · exact read Method.isStatic fun _ => rfl
  · exact read Method.implicit fun _ => rfl
  · exact read Method.position fun _ => rfl
  · exact paramsShown.prolong paramsRead.reachable.wellFormed bodyRead.prolongs middleKnown
      bodyRead.head

/-- A type shows one method more once it is read. -/
theorem TypeShown.withMethod {told : TypeNode} (shown : file.TypeShown type parent node)
    (reachable : file.Reachable) (known : type.index < file.types.size)
    (read : file.MethodRead later type outline)
    (name : told.name = node.name) (position : told.position = node.position)
    (fields : told.fields = node.fields) (typeUses : told.typeUses = node.typeUses)
    (outlines : told.outlines = node.outlines ++ [outline]) :
    file.MembersRead later type ∧ later.TypeShown type parent told := by
  have record : later.typeAt type = { file.typeAt type with
      methods := (file.typeAt type).methods ++ [⟨file.methods.size⟩] } := by
    rw [File.typeAt, read.types]
    exact typeAt_changeType_self known _
  refine ⟨.of_changeType read.reachable known read.types (fun _ => rfl) (read.prolongs _), ?_⟩
  refine shown.withMembers ⟨_, _, _, record⟩ name position ?_ ?_ ?_ <;> rw [record]
  · rw [fields]
    exact map_found_grown (read.prolongs fun _ => False).fields shown.fields
  · rw [outlines]
    have before := shown.methods_prolong reachable.wellFormed (read.prolongs fun _ => False)
      fun _ _ _ _ => id
    exact List.rel_append before (.cons read.shown .nil)
  · rw [typeUses]
    exact map_found_grown (read.prolongs fun _ => False).typeUsages shown.typeUsages

/-! #### Initializers -/

/-- A static initializer gives the class initializer its position if it is the first one. -/
theorem declared_eq (position : Option Position) (record : Method) : declared position record =
    { record with
      implicit := false
      position := if record.implicit then position <|> record.position else record.position } := by
  cases implicit : record.implicit <;> simp [declared, implicit]
  cases record
  simp_all

end File

namespace TypeNode

variable {added : InitializerNode}

/-- A static initializer adds to the class initializer. -/
theorem outlines_addStatic (node : TypeNode) (static : added.isStatic = true) :
    let former := classInitializer node.position node.initializers
    { node with initializers := node.initializers ++ [added] }.outlines =
      { former with
        implicit := false
        position := if former.implicit then added.position <|> former.position else former.position
        body := former.body ++ added.body } :: node.outlines.tail := by
  cases earlier : node.initializers.filter (·.isStatic) <;>
    simp [outlines, classInitializer, static, earlier]

/-- An instance initializer that is read before all methods comes last. -/
theorem outlines_addInstance (node : TypeNode) (instanced : added.isStatic = false)
    (no_methods : node.methods = []) :
    { node with initializers := node.initializers ++ [added] }.outlines =
      node.outlines ++ [instanceInitializer added] := by
  simp [outlines, classInitializer, instanced, no_methods]

theorem outlines_addMethod (node : TypeNode) (added : MethodNode) :
    { node with methods := node.methods ++ [added] }.outlines =
      node.outlines ++ [TypeNode.method added] := by
  simp [outlines]

end TypeNode

namespace File

/-- A method that is in no other one is a lambda of none. -/
theorem eq_of_within {outer inner : Handle .method} (alone : (file.methodAt inner).parent = none)
    (within : file.Within outer inner) : outer = inner := by
  cases within with
  | refl => rfl
  | tail _ inside =>
      rw [alone] at inside
      cases inside

/-- To declare a static initializer leaves the body of the class initializer as it is. -/
theorem bodyKept_declareStaticInitializer (position : Option Position)
    (known : (file.typeAt type).classInitializer.index < file.methods.size) :
    file.BodyKept (file.declareStaticInitializer type position).1 []
      (file.typeAt type).classInitializer := by
  have self : (file.declareStaticInitializer type position).1.methodAt
      (file.typeAt type).classInitializer = _ :=
    (methodAt_changeMethod_self known _).trans (declared_eq _ _)
  exact
    { known
      declaring := by rw [self]
      name := by rw [self]
      scope := fun _ => List.forall_mem_singleton.mpr
        ⟨by rw [self], by rw [self], by rw [self]⟩
      lists := fun part => by rw [self]; cases part <;> rfl
      lambdas := by rw [self] }

/-- The body of a static initializer is read into the class initializer, after those before it. -/
theorem MethodShown.readStaticInitializer {former : Outline} {added : InitializerNode}
    (shown : file.MethodShown type (file.typeAt type).classInitializer former)
    (reachable : file.Reachable) (known : type.index < file.types.size)
    (initializerKnown : (file.typeAt type).classInitializer.index < file.methods.size)
    (lowered : (file.declareStaticInitializer type added.position).1.lowerBody maxLambdaNesting
      (file.typeAt type).classInitializer added.body = .ok later) :
    later.Reachable ∧ later.types = file.types ∧
      file.Prolongs (· = (file.typeAt type).classInitializer.index) later ∧
      later.MethodShown type (file.typeAt type).classInitializer
        { former with
          implicit := false
          position :=
            if former.implicit then added.position <|> former.position else former.position
          body := former.body ++ added.body } := by
  let initializer := (file.typeAt type).classInitializer
  let middle := (file.declareStaticInitializer type added.position).1
  have formed := reachable.wellFormed
  have self : middle.methodAt initializer = _ :=
    (methodAt_changeMethod_self initializerKnown _).trans (declared_eq _ _)
  have middleProlongs : file.Prolongs (· = initializer.index) middle :=
    file.prolongs_changeMethod initializer _
  have middleReachable : middle.Reachable :=
    @Reachable.perform file (.staticInitializer type added.position) reachable known
  have kept := bodyKept_declareStaticInitializer added.position initializerKnown
  have middleShown := shown.body.rehead formed middleProlongs kept fun inner _ differ same =>
    differ (congrArg Handle.mk same)
  have alone : (middle.methodAt initializer).parent = none := by
    rw [self]
    exact shown.parent
  rw [← scopeAround_of_outermost alone] at middleShown
  obtain ⟨bodyRead, bodyShown⟩ := lowerBody_shown maxLambdaNesting middleReachable
    (Nat.lt_of_lt_of_le initializerKnown middleProlongs.methods_size) middleShown lowered
  rw [scopeAround_of_outermost alone] at bodyShown
  have prolongs : file.Prolongs (· = initializer.index) later :=
    middleProlongs.trans bodyRead.prolongs fun _ _ => id
  have read {α : Type} (observe : Method → α)
      (blind : ∀ record : Method, observe record.head = observe record) :=
    (bodyRead.head.read observe blind).trans (congrArg observe self)
  refine ⟨bodyRead.reachable, bodyRead.types.trans rfl, prolongs,
    ⟨?_, ?_, ?_, ?_, ?_, ?_, ?_, ?_, ?_, bodyShown⟩⟩
  · exact (read Method.kind fun _ => rfl).trans shown.kind
  · exact (read Method.declaring fun _ => rfl).trans shown.declaring
  · exact (read Method.parent fun _ => rfl).trans shown.parent
  · exact (read Method.name fun _ => rfl).trans shown.name
  · exact (read Method.returnType fun _ => rfl).trans shown.returnType
  · exact (read Method.isStatic fun _ => rfl).trans shown.isStatic
  · exact read Method.implicit fun _ => rfl
  · rw [read Method.position fun _ => rfl, shown.implicit, shown.position]
  · have params_kept := read (Part.list · .parameter) fun _ => rfl
    have symbol := prolongs.symbolOf_of_named formed initializerKnown
      (read Method.declaring fun _ => rfl) (read Method.name fun _ => rfl)
    rw [ParamsShown, prolongs.entries_eq formed .parameter params_kept, shown.params]
    simp only [symbol]

theorem TypeShown.readStaticInitializer {added : InitializerNode}
    (shown : file.TypeShown type parent node) (reachable : file.Reachable)
    (known : type.index < file.types.size) (static : added.isStatic = true)
    (lowered : (file.declareStaticInitializer type added.position).1.lowerBody maxLambdaNesting
      (file.typeAt type).classInitializer added.body = .ok later) :
    file.MembersRead later type ∧
      later.TypeShown type parent { node with initializers := node.initializers ++ [added] } := by
  have formed := reachable.wellFormed
  have headed := (Assembled.of_reachable reachable).founded.head known
  obtain ⟨rest, listed⟩ := List.head?_eq_some_iff.mp headed.first
  have methodsShown := shown.methods
  rw [listed] at methodsShown
  obtain ⟨former, restShown⟩ := List.forall₂_cons.mp methodsShown
  have initializerKnown := (formed.method_of_listed (listed ▸ List.mem_cons_self)).1
  obtain ⟨laterReachable, types_kept, prolongs, initializerShown⟩ :=
    former.readStaticInitializer reachable known initializerKnown lowered
  have record (other : Handle .type) : later.typeAt other = file.typeAt other := by
    rw [File.typeAt, types_kept, File.typeAt]
  refine ⟨⟨laterReachable, prolongs, congrArg Array.size types_kept,
    fun other _ _ => ⟨_, by rw [record]⟩, by rw [record]⟩, ?_⟩
  refine shown.withMembers ⟨_, _, _, record type⟩ rfl rfl ?_ ?_ ?_ <;> rw [record]
  · exact map_found_grown prolongs.fields shown.fields
  · rw [TypeNode.outlines_addStatic node static, listed]
    refine .cons initializerShown ?_
    -- All other methods of the type are left alone.
    have distinct := List.nodup_cons.mp (listed ▸ formed.methods_nodup type)
    refine forall₂_mono_left restShown fun method member outline methodShown => ?_
    have place := formed.method_of_listed (listed ▸ List.mem_cons_of_mem _ member)
    refine methodShown.prolong formed prolongs place.1 fun inner within same => ?_
    obtain rfl : inner = (file.typeAt type).classInitializer := congrArg Handle.mk same
    obtain rfl := eq_of_within former.parent within
    exact distinct.1 member
  · exact map_found_grown prolongs.typeUsages shown.typeUsages

/-! ### All members -/

theorem TypeShown.lowerInitializer {added : InitializerNode}
    (shown : file.TypeShown type parent node) (reachable : file.Reachable)
    (known : type.index < file.types.size) (no_methods : node.methods = [])
    (lowered : file.lowerInitializer type added = .ok later) :
    file.MembersRead later type ∧
      later.TypeShown type parent { node with initializers := node.initializers ++ [added] } := by
  unfold File.lowerInitializer at lowered
  cases static : added.isStatic with
  | true =>
      rw [if_pos static] at lowered
      exact shown.readStaticInitializer reachable known static lowered
  | false =>
      rw [static] at lowered
      have addedReachable :=
        @Reachable.perform file (.instanceInitializer type added.position) reachable known
      have read : file.MethodRead later type (TypeNode.instanceInitializer added) :=
        methodRead nofun addedReachable lowered
      exact shown.withMethod reachable known read rfl rfl rfl rfl
        (TypeNode.outlines_addInstance node static no_methods)

theorem TypeShown.lowerMethod {added : MethodNode} (shown : file.TypeShown type parent node)
    (reachable : file.Reachable) (known : type.index < file.types.size)
    (lowered : file.lowerMethod type added = .ok later) :
    file.MembersRead later type ∧
      later.TypeShown type parent { node with methods := node.methods ++ [added] } := by
  have outlines := TypeNode.outlines_addMethod node added
  unfold File.lowerMethod at lowered
  by_cases constructs : added.isConstructor = true
  · rw [if_pos constructs] at lowered
    rw [TypeNode.method, if_pos constructs] at outlines
    have addedReachable :=
      @Reachable.perform file (.constructor type added.position) reachable known
    refine shown.withMethod reachable known (methodRead ?_ ?_ ?_) rfl rfl rfl rfl outlines
    · nofun
    · exact addedReachable
    · exact lowered
  · rw [if_neg constructs] at lowered
    rw [TypeNode.method, if_neg constructs] at outlines
    have addedReachable := @Reachable.perform file
      (.method type added.name added.returnType added.isStatic added.position) reachable known
    refine shown.withMethod reachable known (methodRead ?_ ?_ ?_) rfl rfl rfl rfl outlines
    · nofun
    · exact addedReachable
    · exact lowered

/-- A type without members shows all of them once they are read. -/
theorem TypeShown.lowerMembers
    (shown : file.TypeShown type parent
      { node with fields := [], initializers := [], methods := [], typeUses := [] })
    (reachable : file.Reachable) (known : type.index < file.types.size)
    {initialized declared : File}
    (initializers : node.initializers.foldlM (File.lowerInitializer type)
      (node.fields.foldl (fun file field =>
        (file.addField type field.name field.type field.position).1) file) = .ok initialized)
    (methods : node.methods.foldlM (File.lowerMethod type) initialized = .ok declared)
    (typeUses : node.typeUses.foldl (fun file usage =>
      (file.addTypeUsage type usage.name usage.position).1) declared = later) :
    file.MembersRead later type ∧ later.TypeShown type parent node := by
  obtain ⟨name, position, fields, methodNodes, initializerNodes, types, usages⟩ := node
  obtain ⟨fieldsRead, fieldsShown⟩ := TypeShown.foldl
    (fun done => ⟨name, position, done, [], [], types, []⟩)
    (fun itemReachable itemKnown itemShown => itemShown.addField itemReachable itemKnown _)
    fields reachable known shown
  have fieldsKnown := Nat.lt_of_lt_of_eq known fieldsRead.types_size.symm
  obtain ⟨initializersRead, initializersShown⟩ := TypeShown.foldlM
    (fun done => ⟨name, position, fields, [], done, types, []⟩)
    (fun itemReachable itemKnown itemShown =>
      itemShown.lowerInitializer itemReachable itemKnown rfl)
    fieldsRead.reachable fieldsKnown fieldsShown initializers
  have initializersKnown := Nat.lt_of_lt_of_eq fieldsKnown initializersRead.types_size.symm
  obtain ⟨methodsRead, methodsShown⟩ := TypeShown.foldlM
    (fun done => ⟨name, position, fields, done, initializerNodes, types, []⟩)
    (fun itemReachable itemKnown itemShown => itemShown.lowerMethod itemReachable itemKnown)
    initializersRead.reachable initializersKnown initializersShown methods
  have methodsKnown := Nat.lt_of_lt_of_eq initializersKnown methodsRead.types_size.symm
  obtain ⟨usesRead, usesShown⟩ := TypeShown.foldl
    (fun done => ⟨name, position, fields, methodNodes, initializerNodes, types, done⟩)
    (fun itemReachable itemKnown itemShown => itemShown.addTypeUsage itemReachable itemKnown _)
    usages methodsRead.reachable methodsKnown methodsShown
  rw [typeUses] at usesRead usesShown
  exact ⟨((fieldsRead.trans initializersRead).trans methodsRead).trans usesRead, usesShown⟩

end File

end Correlate.Source
