/-
Module: Correlate.Proofs.Source.Founding
Purpose: What types and methods are given when they are added, and keep.
Main exports: Method.Slotted, TypeDecl.Headed, File.Founded, File.Assembled, File.Assembled.founded
-/
import Correlate.Proofs.Source.WellFormed

namespace Correlate.Source

/-!
A type comes with its class initializer, and a method with its receiver if it has one.  Parameters are
numbered as they come.  Nothing that is done to a file later takes any of this away: `File.Founded` is
kept by every step, beside the agreement of owners and lists that `File.WellFormed` is about.
-/

/-- A method has a receiver unless it is static, and its parameters are numbered in their order. -/
structure Method.Slotted (vars : Array Variable) (method : Method) : Prop where
  receiver_isSome : method.receiver.isSome = true ↔ method.isStatic = false
  param_kind : ∀ (n : Nat) (held : Handle .variable), method.params[n]? = some held →
    ∃ entry, vars[held.index]? = some entry ∧ entry.kind = .parameter n

/-- A method is the class initializer of the type at place `i`. -/
structure Method.Initializes (i : Nat) (method : Method) : Prop where
  kind : method.kind = .classInitializer
  declaring : method.declaring = ⟨i⟩
  isStatic : method.isStatic = true

/-- A type at place `i` of a table comes after the type around it, and its class initializer is the
first of its methods. -/
structure TypeDecl.Headed (methods : Array Method) (i : Nat) (type : TypeDecl) : Prop where
  before : ∀ outer, type.parent = some outer → outer.index < i
  first : type.methods.head? = some type.classInitializer
  initializer : ∃ method, methods[type.classInitializer.index]? = some method ∧
    method.Initializes i

/-- Methods have the variables that they should, and types begin with their class initializers. -/
structure File.Founded (file : File) : Prop where
  slotted : ∀ {i : Nat} {method}, file.methods[i]? = some method → method.Slotted file.vars
  headed : ∀ {i : Nat} {type}, file.types[i]? = some type → type.Headed file.methods i

/-! ### Tables that grow -/

/-- A table keeps its entries. -/
def Grown {α : Type} (table later : Array α) : Prop :=
  ∀ (i : Nat) (entry : α), table[i]? = some entry → later[i]? = some entry

theorem Grown.refl {α : Type} (table : Array α) : Grown table table := fun _ _ found => found

theorem Grown.trans {α : Type} {table middle later : Array α} (first : Grown table middle)
    (second : Grown middle later) : Grown table later :=
  fun i entry found => second i entry (first i entry found)

theorem Grown.size_le {α : Type} {table later : Array α} (grown : Grown table later) :
    table.size ≤ later.size := by
  by_contra shrunk
  have known : later.size < table.size := Nat.lt_of_not_le shrunk
  have found := grown _ _ (Array.getElem?_eq_getElem known)
  exact absurd (Array.getElem?_eq_some_iff.mp found).1 (Nat.lt_irrefl _)

theorem Grown.push {α : Type} (table : Array α) (added : α) : Grown table (table.push added) := by
  intro i entry found
  have known := (Array.getElem?_eq_some_iff.mp found).1
  rw [Array.getElem?_push, if_neg (Nat.ne_of_lt known)]
  exact found

/-- A change of a type that leaves alone what the type was given when it was added. -/
structure TypeDecl.Lasting (change : TypeDecl → TypeDecl) : Prop where
  parent : ∀ type, (change type).parent = type.parent
  classInitializer : ∀ type, (change type).classInitializer = type.classInitializer
  methods : ∀ type, ∃ added, (change type).methods = type.methods ++ added

/-- A change of a method that leaves alone what the method was given when it was added. -/
structure Method.Lasting (change : Method → Method) : Prop where
  kind : ∀ method, (change method).kind = method.kind
  declaring : ∀ method, (change method).declaring = method.declaring
  isStatic : ∀ method, (change method).isStatic = method.isStatic
  receiver : ∀ method, (change method).receiver = method.receiver

namespace Method

variable {vars later : Array Variable} {method : Method} {change : Method → Method} {i : Nat}

theorem Slotted.grow (slotted : method.Slotted vars) (grown : Grown vars later) :
    method.Slotted later where
  receiver_isSome := slotted.receiver_isSome
  param_kind n held place := by
    obtain ⟨entry, found, numbered⟩ := slotted.param_kind n held place
    exact ⟨entry, grown _ _ found, numbered⟩

theorem Slotted.of_lasting (slotted : method.Slotted vars) (lasting : Lasting change)
    (params_kept : (change method).params = method.params) : (change method).Slotted vars where
  receiver_isSome := by rw [lasting.receiver, lasting.isStatic]; exact slotted.receiver_isSome
  param_kind := by rw [params_kept]; exact slotted.param_kind

theorem Initializes.of_lasting (initializes : method.Initializes i) (lasting : Lasting change) :
    (change method).Initializes i where
  kind := by rw [lasting.kind]; exact initializes.kind
  declaring := by rw [lasting.declaring]; exact initializes.declaring
  isStatic := by rw [lasting.isStatic]; exact initializes.isStatic

end Method

namespace TypeDecl.Headed

variable {methods later : Array Method} {i : Nat} {type : TypeDecl}

theorem of_lasting (headed : type.Headed methods i) {change : TypeDecl → TypeDecl}
    (lasting : Lasting change) : (change type).Headed methods i where
  before := by rw [lasting.parent]; exact headed.before
  first := by
    obtain ⟨added, appended⟩ := lasting.methods type
    rw [appended, lasting.classInitializer, List.head?_append, headed.first]
    rfl
  initializer := by rw [lasting.classInitializer]; exact headed.initializer

theorem push (headed : type.Headed methods i) (added : Method) :
    type.Headed (methods.push added) i where
  before := headed.before
  first := headed.first
  initializer :=
    let ⟨method, found, initializes⟩ := headed.initializer
    ⟨method, Grown.push methods added _ _ found, initializes⟩

theorem modify (headed : type.Headed methods i) (j : Nat) {change : Method → Method}
    (lasting : Method.Lasting change) : type.Headed (methods.modify j change) i where
  before := headed.before
  first := headed.first
  initializer := by
    obtain ⟨method, found, initializes⟩ := headed.initializer
    rw [Array.getElem?_modify]
    split
    · exact ⟨change method, by rw [found]; rfl, initializes.of_lasting lasting⟩
    · exact ⟨method, found, initializes⟩

end TypeDecl.Headed

namespace File.Founded

variable {file : File}

theorem empty (path package : String) : Founded { path, package } where
  slotted found := by simp at found
  headed found := by simp at found

/-! ### Changes -/

/-- A file with the same types and methods, and perhaps more variables. -/
theorem of_kept (founded : file.Founded) {later : File} (types_kept : later.types = file.types)
    (methods_kept : later.methods = file.methods) (vars_grown : Grown file.vars later.vars) :
    later.Founded where
  slotted found := by
    rw [methods_kept] at found
    exact (founded.slotted found).grow vars_grown
  headed found := by
    rw [types_kept] at found
    rw [methods_kept]
    exact founded.headed found

theorem changeType (founded : file.Founded) (owner : Handle .type) {change : TypeDecl → TypeDecl}
    (lasting : TypeDecl.Lasting change) : (file.changeType owner change).Founded where
  slotted := founded.slotted
  headed found := by
    simp only [File.changeType, Array.getElem?_modify] at found
    split at found
    · obtain ⟨old, oldFound, rfl⟩ := Option.map_eq_some_iff.mp found
      exact (founded.headed oldFound).of_lasting lasting
    · exact founded.headed found

theorem changeMethod (founded : file.Founded) {holder : Handle .method} {change : Method → Method}
    (lasting : Method.Lasting change)
    (slotted : ∀ record, file.methods[holder.index]? = some record →
      (change record).Slotted file.vars) : (file.changeMethod holder change).Founded where
  slotted found := by
    simp only [File.changeMethod, Array.getElem?_modify] at found
    split at found
    · next same =>
      subst same
      obtain ⟨old, oldFound, rfl⟩ := Option.map_eq_some_iff.mp found
      exact slotted old oldFound
    · exact founded.slotted found
  headed found := (founded.headed found).modify holder.index lasting

/-- A method tells more of its body or of its local variables. -/
theorem changeBody (founded : file.Founded) (holder : Handle .method) {change : Method → Method}
    (lasting : Method.Lasting change)
    (params_kept : ∀ record, (change record).params = record.params) :
    (file.changeMethod holder change).Founded :=
  founded.changeMethod lasting fun record found =>
    (founded.slotted found).of_lasting lasting (params_kept record)

theorem addParam (founded : file.Founded) (method : Handle .method) (name : String)
    (type : Option String) (position : Option Position) :
    (file.addParam method name type position).1.Founded := by
  let added : Handle .variable := ⟨file.vars.size⟩
  let change (record : Method) : Method := { record with params := record.params ++ [added] }
  have lasting : Method.Lasting change := ⟨fun _ => rfl, fun _ => rfl, fun _ => rfl, fun _ => rfl⟩
  have grown : Grown file.vars (file.addParam method name type position).1.vars := Grown.push _ _
  let pushed := (file.pushVariable method name type
    (.parameter (file.methodAt method).params.length) position).1
  have pushedFounded : pushed.Founded := founded.of_kept rfl rfl grown
  refine pushedFounded.changeMethod lasting fun record found => ?_
  have slotted := founded.slotted found
  have told : file.methodAt method = record := by
    change file.methods[method.index]? = some record at found
    rw [File.methodAt, found, Option.getD_some]
  refine ⟨slotted.receiver_isSome, fun n held place => ?_⟩
  change (record.params ++ [added])[n]? = some held at place
  rw [List.getElem?_append] at place
  split at place
  · exact (slotted.grow grown).param_kind n held place
  · next after =>
    -- The new parameter is the one after those the method has.
    have last : n = record.params.length := by
      have bound := (List.getElem?_eq_some_iff.mp place).1
      simp only [List.length_cons, List.length_nil] at bound
      omega
    subst last
    obtain rfl : added = held := by simpa using place
    refine ⟨_, Array.getElem?_push_size, ?_⟩
    change VariableKind.parameter (file.methodAt method).params.length = _
    rw [told]

/-! ### New methods and types -/

theorem modify_push_size {α : Type} (table : Array α) (added : α) (change : α → α) :
    (table.push added).modify table.size change = table.push (change added) := by
  apply Array.ext_getElem?
  intro i
  rw [Array.getElem?_modify, Array.getElem?_push, Array.getElem?_push]
  by_cases last : i = table.size
  · simp [last]
  · simp [last, Ne.symm last]

theorem pushRecord (founded : file.Founded) {later : File} {record : Method}
    (slotted : record.Slotted later.vars) (types_kept : later.types = file.types)
    (methods_pushed : later.methods = file.methods.push record)
    (vars_grown : Grown file.vars later.vars) : later.Founded where
  slotted found := by
    rw [methods_pushed, Array.getElem?_push] at found
    split at found
    · obtain rfl := Option.some.inj found
      exact slotted
    · exact (founded.slotted found).grow vars_grown
  headed found := by
    rw [types_kept] at found
    rw [methods_pushed]
    exact (founded.headed found).push record

/-- A method is added, with its receiver if it has one. -/
theorem pushMethod (founded : file.Founded) {method : Method} (bare : method.receiver = none)
    (no_params : method.params = []) : (file.pushMethod method).1.Founded := by
  have listed (received : File) (receivedFounded : received.Founded) :
      (if method.kind = .lambda then received
        else received.changeType method.declaring fun type =>
          { type with methods := type.methods ++ [⟨file.methods.size⟩] }).Founded := by
    split
    · exact receivedFounded
    · exact receivedFounded.changeType _ ⟨fun _ => rfl, fun _ => rfl, fun _ => ⟨_, rfl⟩⟩
  have unnumbered (vars : Array Variable) (n : Nat) (held : Handle .variable)
      (place : method.params[n]? = some held) :
      ∃ entry, vars[held.index]? = some entry ∧ entry.kind = .parameter n := by
    rw [no_params] at place
    cases place
  unfold File.pushMethod
  refine listed _ ?_
  split
  · next static =>
    refine @pushRecord file founded _ method ⟨?_, unnumbered _⟩ rfl rfl (Grown.refl _)
    simp [bare, static]
  · next instanced =>
    let receiver : Handle .variable := ⟨file.vars.size⟩
    refine @pushRecord file founded _ { method with receiver := some receiver }
      ⟨?_, unnumbered _⟩ rfl ?_ (Grown.push _ _)
    · simp [instanced]
    · exact modify_push_size file.methods method fun record =>
        { record with receiver := some receiver }

/-- A type is added with its class initializer. -/
theorem pushType (founded : file.Founded) (name binaryName : String)
    {parent : Option (Handle .type)}
    (known : ∀ outer, parent = some outer → outer.index < file.types.size) (anonymous : Bool)
    (position : Option Position) :
    (file.pushType name binaryName parent anonymous position).1.Founded := by
  let initializer : Handle .method := ⟨file.methods.size⟩
  let type : TypeDecl :=
    { position, name, binaryName, parent, anonymous, classInitializer := initializer }
  let method : Method :=
    { position, kind := .classInitializer, declaring := ⟨file.types.size⟩, parent := none
      name := ReservedName.classInitializer, returnType := none, isStatic := true, implicit := true }
  have methods_pushed : (file.pushType name binaryName parent anonymous position).1.methods =
      file.methods.push method := rfl
  have types_pushed : (file.pushType name binaryName parent anonymous position).1.types =
      file.types.push { type with methods := [initializer] } :=
    modify_push_size file.types type fun type =>
      { type with methods := type.methods ++ [initializer] }
  constructor
  case slotted =>
    intro i record found
    rw [methods_pushed, Array.getElem?_push] at found
    split at found
    · obtain rfl := Option.some.inj found
      exact ⟨by simp [method], nofun⟩
    · exact founded.slotted found
  case headed =>
    intro i record found
    rw [methods_pushed]
    rw [types_pushed, Array.getElem?_push] at found
    split at found
    · next last =>
      obtain rfl := Option.some.inj found
      subst last
      exact ⟨known, rfl, method, Array.getElem?_push_size, rfl, rfl, rfl⟩
    · exact (founded.headed found).push method

/-! ### Whole files -/

theorem declareStaticInitializer (founded : file.Founded) (type : Handle .type)
    (position : Option Position) : (file.declareStaticInitializer type position).1.Founded := by
  have lasting : Method.Lasting (File.declared position) := by
    constructor <;> intro record <;> unfold File.declared <;> split <;> rfl
  refine founded.changeBody _ lasting fun record => ?_
  unfold File.declared
  split <;> rfl

theorem addLambda (founded : file.Founded) (parent : Handle .method) (position : Option Position) :
    (file.addLambda parent position).1.Founded := by
  have counted : ({ file with lambdaCount := file.lambdaCount + 1 } : File).Founded :=
    ⟨founded.slotted, founded.headed⟩
  refine changeBody (counted.pushMethod ?_ ?_) parent
    ⟨fun _ => rfl, fun _ => rfl, fun _ => rfl, fun _ => rfl⟩ fun _ => rfl
  · rfl
  · rfl

theorem perform (founded : file.Founded) {step : Step} (known : step.Known file) :
    (file.perform step).1.Founded := by
  cases step with
  | importName => exact ⟨founded.slotted, founded.headed⟩
  | type name parent position => exact founded.pushType _ _ known _ _
  | anonymousType parent position =>
      refine pushType (founded.changeType parent ?_) _ _ ?_ _ _
      · exact ⟨fun _ => rfl, fun _ => rfl, fun _ => ⟨[], (List.append_nil _).symm⟩⟩
      · rintro outer ⟨⟩
        rw [File.changeType, Array.size_modify]
        exact known
  | field declaring | placeholderField declaring | typeUsage declaring =>
      refine changeType ?_ declaring ?_
      · exact founded.of_kept rfl rfl (Grown.refl _)
      · exact ⟨fun _ => rfl, fun _ => rfl, fun _ => ⟨[], (List.append_nil _).symm⟩⟩
  | method | constructor | instanceInitializer =>
      simp only [File.perform, named, File.addConstructor, File.addMethod,
        File.addInstanceInitializer]
      exact founded.pushMethod rfl rfl
  | staticInitializer type position => exact founded.declareStaticInitializer type position
  | lambda parent position => exact founded.addLambda parent position
  | param method name type position => exact founded.addParam method name type position
  | localVariable method =>
      refine changeBody ?_ method ?_ ?_
      · exact founded.of_kept rfl rfl (Grown.push _ _)
      · exact ⟨fun _ => rfl, fun _ => rfl, fun _ => rfl, fun _ => rfl⟩
      · exact fun _ => rfl
  | invocation method | placeholderInvocation method | allocation method
  | placeholderAllocation method | fieldAccess method | outerThis method | cast method
  | methodRef method | stringConstant method =>
      refine changeBody ?_ method ?_ ?_
      · exact founded.of_kept rfl rfl (Grown.refl _)
      · exact ⟨fun _ => rfl, fun _ => rfl, fun _ => rfl, fun _ => rfl⟩
      · exact fun _ => rfl
  | link element link =>
      unfold File.perform
      dsimp only
      split
      · next linked changed =>
        unfold File.setLink? at changed
        split at changed
        · cases changed
        · obtain rfl := Option.some.inj changed
          exact ⟨founded.slotted, founded.headed⟩
      · exact founded

theorem head (founded : file.Founded) {type : Handle .type}
    (known : type.index < file.types.size) : (file.typeAt type).Headed file.methods type.index :=
  founded.headed (by rw [File.typeAt, Array.getElem?_eq_getElem known, Option.getD_some])

end File.Founded

/-! ### Files with resolved names -/

/-- The files that come of empty ones: by steps, and by noting which compiled types used names
denote. -/
inductive File.Assembled : File → Prop where
  | empty (path package : String) : Assembled { path, package }
  | perform {file : File} {step : Step} (assembled : Assembled file) (known : step.Known file) :
      Assembled (file.perform step).1
  | resolve {file : File} {usage : Handle .typeUsage} (assembled : Assembled file)
      (known : usage.index < file.typeUsages.size) (name : String) :
      Assembled (file.resolveUsage usage name)

namespace File.Assembled

variable {file : File}

theorem of_reachable (reachable : file.Reachable) : file.Assembled := by
  induction reachable with
  | empty path package => exact .empty path package
  | perform _ known inductionHypothesis => exact .perform inductionHypothesis known

theorem wellFormed (assembled : file.Assembled) : file.WellFormed := by
  induction assembled with
  | empty path package => exact .empty path package
  | perform _ known inductionHypothesis => exact inductionHypothesis.perform known
  | resolve _ _ name inductionHypothesis => exact inductionHypothesis.resolveUsage _ name

theorem founded (assembled : file.Assembled) : file.Founded := by
  induction assembled with
  | empty path package => exact .empty path package
  | perform _ known inductionHypothesis => exact inductionHypothesis.perform known
  | resolve _ _ _ inductionHypothesis =>
      exact ⟨inductionHypothesis.slotted, inductionHypothesis.headed⟩

end File.Assembled

end Correlate.Source
