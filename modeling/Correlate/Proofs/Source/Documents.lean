/-
Module: Correlate.Proofs.Source.Documents
Purpose: A file that is read from a document shows it: nothing is lost, doubled or moved.
Main exports: File.TypesRead, File.ofDocument_read, File.ofDocument_shows
-/
import Correlate.Proofs.Source.Extension
import Correlate.Proofs.Source.Members

namespace Correlate.Source

/-!
Types are read in preorder: a type with all its members, then the types nested in it.  Reading a type
leaves alone whatever was there, so the file shows each type of the document at its place.
-/

variable {file middle later : File} {parent : Option (Handle .type)} {name : Option String}
  {position : Option Position}

namespace File

/-! ### Adding a type -/

/-- A type is added that shows what a document says of it before its members. -/
structure TypeAdded (file later : File) (parent : Option (Handle .type)) (name : Option String)
    (position : Option Position) : Prop where
  prolongs : ∀ touched, file.Prolongs touched later
  types : ∀ touched, file.TypesKept touched later
  types_size : later.types.size = file.types.size + 1
  classInitializer : (later.typeAt ⟨file.types.size⟩).classInitializer = ⟨file.methods.size⟩
  shown : ∀ types, later.TypeShown ⟨file.types.size⟩ parent { name, position, types }

/-- The class initializer that a type comes with. -/
def newInitializer (file : File) (position : Option Position) : Method :=
  { position, kind := .classInitializer, declaring := ⟨file.types.size⟩, parent := none
    name := ReservedName.classInitializer, returnType := none, isStatic := true, implicit := true }

/-- A type as it is added, with its class initializer. -/
def newType (file : File) (told binaryName : String) (parent : Option (Handle .type))
    (anonymous : Bool) (position : Option Position) : TypeDecl :=
  { position, name := told, binaryName, parent, anonymous, methods := [⟨file.methods.size⟩]
    classInitializer := ⟨file.methods.size⟩ }

section

variable (file : File) (told binaryName : String) (parent : Option (Handle .type))
  (anonymous : Bool) (position : Option Position)

theorem types_pushType : (file.pushType told binaryName parent anonymous position).1.types =
    file.types.push (file.newType told binaryName parent anonymous position) :=
  Founded.modify_push_size file.types _ fun type =>
    { type with methods := type.methods ++ [⟨file.methods.size⟩] }

theorem methods_pushType : (file.pushType told binaryName parent anonymous position).1.methods =
    file.methods.push (file.newInitializer position) := rfl

theorem typeAt_pushType_self :
    (file.pushType told binaryName parent anonymous position).1.typeAt ⟨file.types.size⟩ =
      file.newType told binaryName parent anonymous position := by
  rw [File.typeAt, types_pushType, Array.getElem?_push_size, Option.getD_some]

theorem typeAt_pushType_other {type : Handle .type} (known : type.index < file.types.size) :
    (file.pushType told binaryName parent anonymous position).1.typeAt type = file.typeAt type := by
  rw [File.typeAt, types_pushType, Array.getElem?_push, if_neg (Nat.ne_of_lt known), File.typeAt]

theorem methodAt_pushType_self :
    (file.pushType told binaryName parent anonymous position).1.methodAt ⟨file.methods.size⟩ =
      file.newInitializer position := by
  rw [File.methodAt, methods_pushType, Array.getElem?_push_size, Option.getD_some]

theorem prolongs_pushType (touched : Nat → Prop) :
    file.Prolongs touched (file.pushType told binaryName parent anonymous position).1 where
  path := rfl
  package := rfl
  imports := rfl
  links := rfl
  parts part := by cases part <;> exact .refl _
  fields := .refl _
  typeUsages := .refl _
  methods_size := (Grown.push _ _).size_le
  methods i known _ := by rw [methods_pushType, Array.getElem?_push, if_neg (Nat.ne_of_lt known)]
  types_size := by
    rw [types_pushType]
    exact (Grown.push _ _).size_le
  binaryName type known := by rw [file.typeAt_pushType_other _ _ _ _ _ known]

/-- The class initializer of a new type is implicit and empty. -/
theorem classInitializer_pushType :
    (file.pushType told binaryName parent anonymous position).1.MethodShown ⟨file.types.size⟩
      ⟨file.methods.size⟩ (TypeNode.classInitializer position []) := by
  have self := file.methodAt_pushType_self told binaryName parent anonymous position
  constructor
  case params => rw [ParamsShown, Part.entries, self]; rfl
  case body =>
    exact .nil (fun part _ => by rw [self]; cases part <;> rfl) (by rw [self]; rfl)
  all_goals rw [self]; rfl

theorem typeAdded_pushType (unnamed : anonymous = name.isNone)
    (named : ∀ given, name = some given → told = given) :
    file.TypeAdded (file.pushType told binaryName parent anonymous position).1 parent name
      position := by
  have self := file.typeAt_pushType_self told binaryName parent anonymous position
  constructor
  case prolongs => exact file.prolongs_pushType told binaryName parent anonymous position
  case types =>
    exact fun _ type known _ =>
      ⟨_, by rw [file.typeAt_pushType_other _ _ _ _ _ known]⟩
  case types_size => rw [types_pushType, Array.size_push]
  case classInitializer => rw [self]; rfl
  case shown =>
    intro types
    constructor <;> rw [self]
    case anonymous => exact unnamed
    case name => exact named
    case methods =>
      exact .cons (file.classInitializer_pushType told binaryName parent anonymous position) .nil
    all_goals rfl

end

/-- The number of anonymous types in a type may change first. -/
theorem TypeAdded.of_changeType (outer : Handle .type) {change : TypeDecl → TypeDecl}
    (counts : ∀ record, ∃ anonymousCount, change record = { record with anonymousCount })
    (added : (file.changeType outer change).TypeAdded later parent name position) :
    file.TypeAdded later parent name position := by
  have types_changed : (file.changeType outer change).types =
    file.types.modify outer.index change := rfl
  have same_size : (file.changeType outer change).types.size = file.types.size := Array.size_modify
  have named (record : TypeDecl) : (change record).binaryName = record.binaryName := by
    obtain ⟨_, counted⟩ := counts record
    rw [counted]
  have prolongs (touched : Nat → Prop) : file.Prolongs touched (file.changeType outer change) :=
    prolongs_of_changeType touched ⟨rfl, rfl, rfl, rfl⟩ types_changed named (.refl _)
      (fun part => by cases part <;> exact .refl _) (.refl _) (.refl _)
  have kept (touched : Nat → Prop) : file.TypesKept touched (file.changeType outer change) := by
    intro type _ _
    rcases file.typeAt_changeType outer type change with same | changed
    · exact ⟨_, same⟩
    · rw [changed]
      exact counts _
  constructor
  case prolongs =>
    exact fun touched => (prolongs touched).trans (added.prolongs touched) fun _ _ => id
  case types =>
    exact fun touched => (kept touched).trans (added.types touched) (Nat.le_of_eq same_size.symm)
      fun _ _ => id
  case types_size => exact added.types_size.trans (congrArg (· + 1) same_size)
  case classInitializer =>
    rw [← same_size]
    exact added.classInitializer
  case shown =>
    rw [← same_size]
    exact added.shown

/-- A type that is not there yet is added as the document says. -/
theorem typeAdded_lowerHead {type : Handle .type}
    (lowered : file.lowerHead parent name position = .ok (later, type)) :
    type = ⟨file.types.size⟩ ∧ file.TypeAdded later parent name position := by
  cases name with
  | some given =>
      obtain ⟨rfl, rfl⟩ := Prod.mk.inj (Except.ok.inj lowered)
      exact ⟨rfl, file.typeAdded_pushType _ _ _ _ _ rfl fun _ => Option.some.inj⟩
  | none =>
      cases parent with
      | none => cases lowered
      | some outer =>
          have same : file.addAnonymousType outer position = (later, type) :=
            Except.ok.inj lowered
          unfold addAnonymousType at same
          have placed := congrArg Prod.snd same
          have pushed := congrArg Prod.fst same
          refine ⟨placed.symm.trans (congrArg Handle.mk Array.size_modify), ?_⟩
          refine .of_changeType outer (fun record => ⟨(file.typeAt outer).anonymousCount + 1, rfl⟩) ?_
          rw [← show _ = later from pushed]
          exact typeAdded_pushType _ _ _ _ _ _ rfl nofun

theorem Reachable.lowerHead {type : Handle .type} (reachable : file.Reachable)
    (known : ∀ outer, parent = some outer → outer.index < file.types.size)
    (lowered : file.lowerHead parent name position = .ok (later, type)) : later.Reachable := by
  cases name with
  | some given =>
      obtain ⟨rfl, -⟩ := Prod.mk.inj (Except.ok.inj lowered)
      exact @Reachable.perform file (.type given parent position) reachable known
  | none =>
      cases parent with
      | none => cases lowered
      | some outer =>
          obtain ⟨rfl, -⟩ := Prod.mk.inj (Except.ok.inj lowered)
          exact @Reachable.perform file (.anonymousType outer position) reachable (known outer rfl)

/-! ### Reading types -/

/-- What reading types makes of a file: it shows them at the places after those that there were, and
leaves alone everything else. -/
structure TypesRead (file later : File) (entries : List (Option Nat × TypeNode)) : Prop where
  reachable : later.Reachable
  prolongs : file.Prolongs (fun _ => False) later
  types : file.TypesKept (fun _ => False) later
  types_size : later.types.size = file.types.size + entries.length
  shown : ∀ (i : Nat) parent node, entries[i]? = some (parent, node) →
    later.TypeShown ⟨file.types.size + i⟩ (parent.map Handle.mk) node

namespace TypesRead

variable {entries others : List (Option Nat × TypeNode)}

theorem nil (reachable : file.Reachable) : file.TypesRead file [] :=
  ⟨reachable, .refl _ file, .refl _ file, rfl, nofun⟩

theorem append (first : file.TypesRead middle entries) (second : middle.TypesRead later others) :
    file.TypesRead later (entries ++ others) where
  reachable := second.reachable
  prolongs := first.prolongs.trans second.prolongs fun _ _ => id
  types := first.types.trans second.types first.prolongs.types_size fun _ _ => id
  types_size := by
    rw [second.types_size, first.types_size, List.length_append, Nat.add_assoc]
  shown i parent node place := by
    rw [List.getElem?_append] at place
    split at place
    · next before =>
      have known : file.types.size + i < middle.types.size := by
        rw [first.types_size]
        exact Nat.add_lt_add_left before _
      exact (first.shown i parent node place).prolong first.reachable.wellFormed second.prolongs
        (second.types _ known id) fun _ _ _ _ => id
    · next after =>
      have shown := second.shown (i - entries.length) parent node place
      have reached := Nat.add_sub_cancel' (Nat.le_of_not_lt after)
      rwa [first.types_size, Nat.add_assoc, reached] at shown

/-- A type that is added, and all its members. -/
theorem singleton {outer : Option Nat} {node : TypeNode}
    (added : file.TypeAdded middle parent name position)
    (read : middle.MembersRead later ⟨file.types.size⟩)
    (shown : later.TypeShown ⟨file.types.size⟩ (outer.map Handle.mk) node) :
    file.TypesRead later [(outer, node)] where
  reachable := read.reachable
  prolongs := (added.prolongs _).trans read.prolongs fun i old new => by
    rw [added.classInitializer] at new
    exact absurd new (Nat.ne_of_lt old)
  types := (added.types _).trans read.types (by rw [added.types_size]; exact Nat.le_succ _)
    fun i old new => absurd new (Nat.ne_of_lt old)
  types_size := read.types_size.trans added.types_size
  shown i parent told place := by
    cases i with
    | zero =>
        obtain ⟨rfl, rfl⟩ := Prod.mk.inj (Option.some.inj place)
        exact shown
    | succ => cases place

end TypesRead

mutual

/-- A type that is read is shown with the types nested in it. -/
theorem lowerType_read {outer : Option Nat} : ∀ {node : TypeNode} {file later : File},
    file.Reachable → (∀ i, outer = some i → i < file.types.size) →
    file.lowerType (outer.map Handle.mk) node = .ok later →
    file.TypesRead later (node.preorder outer file.types.size)
  | ⟨name, position, fields, methods, initializers, types, typeUses⟩, file, later, reachable, known,
    lowered => by
      rw [lowerType] at lowered
      obtain ⟨⟨added, type⟩, headLowered, lowered⟩ := bind_eq_ok_iff.mp lowered
      obtain ⟨initialized, initializersLowered, lowered⟩ := bind_eq_ok_iff.mp lowered
      obtain ⟨declared, methodsLowered, typesLowered⟩ := bind_eq_ok_iff.mp lowered
      obtain ⟨rfl, headAdded⟩ := typeAdded_lowerHead headLowered
      have addedReachable := reachable.lowerHead (by
        intro parent same
        obtain ⟨i, found, rfl⟩ := Option.map_eq_some_iff.mp same
        exact known i found) headLowered
      have addedKnown : file.types.size < added.types.size := by
        rw [headAdded.types_size]
        exact Nat.lt_succ_self _
      let node : TypeNode := ⟨name, position, fields, methods, initializers, types, typeUses⟩
      have headShown : added.TypeShown ⟨file.types.size⟩ (outer.map Handle.mk)
          { node with fields := [], initializers := [], methods := [], typeUses := [] } :=
        headAdded.shown types
      obtain ⟨membersRead, typeShown⟩ := headShown.lowerMembers addedReachable addedKnown
        initializersLowered methodsLowered rfl
      have own := TypesRead.singleton headAdded membersRead typeShown
      have nested := @lowerTypes_read (some file.types.size) types _ _ own.reachable (by
        rintro _ ⟨⟩
        rw [own.types_size]
        exact Nat.lt_succ_self _) typesLowered
      rw [own.types_size] at nested
      exact own.append nested

/-- Types that are read are shown in their order. -/
theorem lowerTypes_read {outer : Option Nat} : ∀ {nodes : List TypeNode} {file later : File},
    file.Reachable → (∀ i, outer = some i → i < file.types.size) →
    file.lowerTypes (outer.map Handle.mk) nodes = .ok later →
    file.TypesRead later (TypeNode.preorderAll outer file.types.size nodes)
  | [], file, later, reachable, known, lowered => by
      obtain rfl := Except.ok.inj lowered
      exact .nil reachable
  | node :: rest, file, later, reachable, known, lowered => by
      rw [lowerTypes] at lowered
      obtain ⟨middle, nodeLowered, restLowered⟩ := bind_eq_ok_iff.mp lowered
      have first := lowerType_read reachable known nodeLowered
      have others := lowerTypes_read first.reachable
        (fun i same => Nat.lt_of_lt_of_le (known i same) first.prolongs.types_size) restLowered
      rw [first.types_size] at others
      exact first.append others

end

/-! ### Documents -/

/-- A file that a document describes before any type is read. -/
def ofHeader (path : String) (document : Document) : File :=
  { path, package := document.package
    imports := document.imports.map fun node =>
      Import.parse node.name node.isStatic node.position }

theorem reachable_ofHeader (path : String) (document : Document) :
    (ofHeader path document).Reachable := by
  have grown (imports : List ImportNode) {file : File} (reachable : file.Reachable) :
      ({ file with imports := file.imports ++ imports.map fun node =>
          Import.parse node.name node.isStatic node.position } : File).Reachable := by
    induction imports generalizing file with
    | nil =>
        rw [List.map_nil, List.append_nil]
        exact reachable
    | cons node rest inductionHypothesis =>
        have first := @Reachable.perform file (.importName node.name node.isStatic node.position)
          reachable trivial
        have others := inductionHypothesis first
        rw [List.map_cons, List.append_cons]
        exact others
  exact grown document.imports (.empty path document.package)

variable {path : String} {document : Document}

theorem ofDocument_read (lowered : ofDocument path document = .ok file) :
    (ofHeader path document).TypesRead file (TypeNode.preorderAll none 0 document.types) :=
  @lowerTypes_read none document.types _ _ (reachable_ofHeader path document) nofun lowered

theorem shows_of_lowered (lowered : ofDocument path document = .ok file) :
    file.Shows path document where
  path := (ofDocument_read lowered).prolongs.path
  package := (ofDocument_read lowered).prolongs.package
  imports := (ofDocument_read lowered).prolongs.imports
  types_size := (ofDocument_read lowered).types_size.trans (Nat.zero_add _)
  types i parent node place := by
    have shown := (ofDocument_read lowered).shown i parent node place
    have first : (ofHeader path document).types.size + i = i := Nat.zero_add i
    rwa [first] at shown

/-- Reading links nothing. -/
theorem unlinked_of_lowered (lowered : ofDocument path document = .ok file) (element : Ref) :
    file.isLinked element = false := by
  rw [isLinked, link?, (ofDocument_read lowered).prolongs.links]
  simp [ofHeader]

/-- A file that is read from a document has exactly the types, the methods and the body elements of
the document, each in its place, and names in it denote what is in scope. -/
theorem ofDocument_shows (lowered : ofDocument path document = .ok file) :
    file.WellFormed ∧ file.Founded ∧ file.Shows path document :=
  have reachable := (ofDocument_read lowered).reachable
  ⟨reachable.wellFormed, (Assembled.of_reachable reachable).founded, shows_of_lowered lowered⟩

/-- A type with two static initializers around an instance initializer, a method whose parameter is
hidden by a local variable in a lambda, and an anonymous type. -/
def shopDocument : Document where
  package := "shop"
  imports := [{ name := "java.util.List" }]
  types :=
    [{ name := some "Shop"
       fields := [{ name := "open", type := "boolean" }]
       initializers :=
         [{ isStatic := true, body := [.string "first" none] }, { body := [.new "Till" 0 none none] },
          { isStatic := true, body := [.string "second" none] }]
       methods :=
         [{ name := "sell"
            params := [{ name := "item", type := some "String" }]
            body :=
              [.call "check" 0 (some "item") none none,
               .lambda [] [.localVariable "item" none none,
                 .call "pack" 1 (some "item") (some "this") none] none,
               .call "ship" 1 (some "item") none none] }]
       types := [{ methods := [{ name := "close" }] }] }]

theorem ofDocument_shows_shop : ∃ file, ofDocument "Shop.java" shopDocument = .ok file ∧
    file.WellFormed ∧ file.Founded ∧ file.Shows "Shop.java" shopDocument := by
  have accepted : (ofDocument "Shop.java" shopDocument).isOk = true := by decide +kernel
  cases lowered : ofDocument "Shop.java" shopDocument with
  | ok file => exact ⟨file, rfl, ofDocument_shows lowered⟩
  | error reason =>
      rw [lowered] at accepted
      cases accepted

end File

end Correlate.Source
