/-
Module: Correlate.Proofs.Source.BinaryNames
Purpose: The binary name of a type of a file is the binary form of its dotted spelling.
Main exports: Naming, File.kept_perform, File.Assembled.binaryName_eq, File.nestedNames,
  File.Assembled.binaryName_nested, File.addNested, File.binaryNames_spelled
-/
import Correlate.Proofs.BinaryForm
import Correlate.Proofs.Source.Consistency

namespace Correlate.Source

/-!
A type is given its binary name when it is added, from the name of the type around it or from the
package.  The name is never changed again, so it can be read off the types around: it is the package,
then the names of the types, outermost first.  Binary form gets the same out of the name that is
spelled with points.
-/

open Correlate.TypeName

/-! ### Names of types -/

/-- What a type is called, and the type around it. -/
structure Naming where
  name : String
  binaryName : String
  parent : Option (Handle .type)
deriving DecidableEq, Repr

def TypeDecl.naming (type : TypeDecl) : Naming :=
  { name := type.name, binaryName := type.binaryName, parent := type.parent }

/-- What the types of a file are called. -/
def File.namings (file : File) : List Naming :=
  file.types.toList.map TypeDecl.naming

/-- What the type that a step adds is called. -/
def Step.namings (file : File) : Step → List Naming
  | .type name parent _ => [⟨name, file.binaryNameOf name parent, parent⟩]
  | .anonymousType parent _ =>
      let name := toString ((file.typeAt parent).anonymousCount + 1)
      [⟨name, file.binaryNameOf name (some parent), some parent⟩]
  | _ => []

namespace File

variable {file : File}

theorem namings_changeType (file : File) (owner : Handle .type) {change : TypeDecl → TypeDecl}
    (kept : ∀ type, (change type).naming = type.naming) :
    (file.changeType owner change).namings = file.namings :=
  map_toList_modify _ _ kept

theorem kept_pushMethod (file : File) (method : Method) :
    (file.pushMethod method).1.namings = file.namings ∧
      (file.pushMethod method).1.package = file.package := by
  have listed (received : File)
      (kept : received.namings = file.namings ∧ received.package = file.package) :
      let later := if method.kind = .lambda then received
        else received.changeType method.declaring fun type =>
          { type with methods := type.methods ++ [⟨file.methods.size⟩] }
      later.namings = file.namings ∧ later.package = file.package := by
    dsimp only
    split
    · exact kept
    · refine ⟨(namings_changeType received _ ?_).trans kept.1, kept.2⟩
      exact fun _ => rfl
  unfold pushMethod
  apply listed
  split <;> exact ⟨rfl, rfl⟩

theorem kept_pushType (file : File) (name binaryName : String) (parent : Option (Handle .type))
    (anonymous : Bool) (position : Option Position) :
    (file.pushType name binaryName parent anonymous position).1.namings =
        file.namings ++ [⟨name, binaryName, parent⟩] ∧
      (file.pushType name binaryName parent anonymous position).1.package = file.package := by
  unfold pushType
  dsimp only
  obtain ⟨namings, package⟩ := kept_pushMethod { file with
    types := file.types.push { position, name, binaryName, parent, anonymous
                               classInitializer := ⟨file.methods.size⟩ } }
    { position, kind := .classInitializer, declaring := ⟨file.types.size⟩, parent := none
      name := ReservedName.classInitializer, returnType := none, isStatic := true, implicit := true }
  refine ⟨namings.trans ?_, package⟩
  simp [File.namings, TypeDecl.naming]

/-- A step names the type that it adds, and no type is named anew. -/
theorem kept_perform (file : File) (step : Step) :
    (file.perform step).1.namings = file.namings ++ step.namings file ∧
      (file.perform step).1.package = file.package := by
  cases step with
  | type name parent position => exact file.kept_pushType _ _ _ _ _
  | anonymousType parent position =>
      let count (type : TypeDecl) : TypeDecl :=
        { type with anonymousCount := (file.typeAt parent).anonymousCount + 1 }
      have counted : (file.changeType parent count).namings = file.namings :=
        namings_changeType file parent fun _ => rfl
      obtain ⟨namings, package⟩ := kept_pushType (file.changeType parent _)
        (toString ((file.typeAt parent).anonymousCount + 1)) _ (some parent) true position
      exact ⟨namings.trans (by rw [counted]; rfl), package⟩
  | field owner | placeholderField owner | typeUsage owner =>
      refine ⟨Eq.trans ?_ (List.append_nil _).symm, rfl⟩
      exact namings_changeType _ owner fun _ => rfl
  | method | constructor | instanceInitializer =>
      obtain ⟨namings, package⟩ := kept_pushMethod file _
      exact ⟨namings.trans (List.append_nil _).symm, package⟩
  | lambda parent position =>
      obtain ⟨namings, package⟩ :=
        kept_pushMethod { file with lambdaCount := file.lambdaCount + 1 } _
      exact ⟨namings.trans (List.append_nil _).symm, package⟩
  | link element link =>
      have kept : (file.perform (.link element link)).1.types = file.types ∧
          (file.perform (.link element link)).1.package = file.package := by
        unfold perform
        dsimp only
        split
        · next linked changed =>
          unfold setLink? at changed
          split at changed
          · cases changed
          · obtain rfl := Option.some.inj changed
            exact ⟨rfl, rfl⟩
        · exact ⟨rfl, rfl⟩
      refine ⟨Eq.trans ?_ (List.append_nil _).symm, kept.2⟩
      rw [File.namings, File.namings, kept.1]
  | _ => exact ⟨(List.append_nil _).symm, rfl⟩

/-! ### Binary names -/

variable {later : File} {type : Handle .type} {parent : Option (Handle .type)}

theorem found_naming (known : type.index < file.types.size) :
    file.namings[type.index]? = some (file.typeAt type).naming := by
  rw [namings, List.getElem?_map, Array.getElem?_toList, typeAt, Array.getElem?_eq_getElem known]
  rfl

theorem naming_of_found {naming : Naming} (found : file.namings[type.index]? = some naming) :
    (file.typeAt type).naming = naming := by
  rw [namings, List.getElem?_map, Array.getElem?_toList] at found
  obtain ⟨record, listed, rfl⟩ := Option.map_eq_some_iff.mp found
  rw [typeAt, listed]
  rfl

theorem naming_mem (known : type.index < file.types.size) :
    (file.typeAt type).naming ∈ file.namings :=
  List.mem_of_getElem? (found_naming known)

/-- Further types do not change what a type is called. -/
theorem naming_kept {added : List Naming} (grown : later.namings = file.namings ++ added)
    (known : type.index < file.types.size) :
    (later.typeAt type).naming = (file.typeAt type).naming := by
  have sizes := congrArg List.length grown
  simp only [namings, List.length_append, List.length_map, Array.length_toList] at sizes
  have found := @found_naming later type (by omega)
  have listed : type.index < file.namings.length := by
    rw [namings, List.length_map, Array.length_toList]
    exact known
  rw [grown, List.getElem?_append_left listed, found_naming known] at found
  exact (Option.some.inj found).symm

theorem binaryNameOf_kept {added : List Naming} (grown : later.namings = file.namings ++ added)
    (package_kept : later.package = file.package)
    (known : ∀ outer, parent = some outer → outer.index < file.types.size) (name : String) :
    later.binaryNameOf name parent = file.binaryNameOf name parent := by
  cases parent with
  | none => rw [binaryNameOf, binaryNameOf, package_kept]
  | some outer =>
      have kept := congrArg Naming.binaryName (naming_kept grown (known outer rfl))
      exact congrArg (fun binaryName => s!"{binaryName}${name}") kept

theorem Founded.parent_known (founded : file.Founded) {naming : Naming}
    (member : naming ∈ file.namings) {outer : Handle .type} (inside : naming.parent = some outer) :
    outer.index < file.types.size := by
  obtain ⟨type, listed, rfl⟩ := List.mem_map.mp member
  obtain ⟨i, found⟩ := List.mem_iff_getElem?.mp listed
  rw [Array.getElem?_toList] at found
  exact Nat.lt_trans ((founded.headed found).before outer inside)
    (Array.getElem?_eq_some_iff.mp found).1

theorem binaryName_of_step {step : Step} (known : step.Known file) {naming : Naming}
    (member : naming ∈ step.namings file) :
    naming.binaryName = file.binaryNameOf naming.name naming.parent ∧
      ∀ outer, naming.parent = some outer → outer.index < file.types.size := by
  cases step with
  | type name parent position =>
      obtain rfl := List.mem_singleton.mp member
      exact ⟨rfl, known⟩
  | anonymousType parent position =>
      obtain rfl := List.mem_singleton.mp member
      refine ⟨rfl, ?_⟩
      rintro outer ⟨⟩
      exact known
  | _ => cases member

/-- The binary name of a type is the one it was given. -/
theorem Assembled.binaryName_eq (assembled : file.Assembled) :
    ∀ naming ∈ file.namings, naming.binaryName = file.binaryNameOf naming.name naming.parent := by
  induction assembled with
  | empty path package => exact nofun
  | @perform file step assembled known inductionHypothesis =>
      obtain ⟨grown, package_kept⟩ := file.kept_perform step
      intro naming member
      rw [grown, List.mem_append] at member
      rcases member with old | new
      · rw [binaryNameOf_kept grown package_kept fun _ => assembled.founded.parent_known old]
        exact inductionHypothesis naming old
      · obtain ⟨named, parent_known⟩ := binaryName_of_step known new
        rw [binaryNameOf_kept grown package_kept parent_known]
        exact named
  | resolve _ _ _ inductionHypothesis => exact inductionHypothesis

/-- The names of the types around a type, outermost first, and its own. -/
def nestedNames (file : File) (type : Handle .type) : List String :=
  (file.enclosingTypes type ++ [type]).map fun type => (file.typeAt type).name

theorem nestedNames_ne_nil (file : File) (type : Handle .type) : file.nestedNames type ≠ [] := by
  simp [nestedNames]

theorem nestedNames_of_outermost (alone : (file.typeAt type).parent = none) :
    file.nestedNames type = [(file.typeAt type).name] := by
  rw [nestedNames, Founded.enclosingTypes_of_outermost alone]
  rfl

theorem Founded.nestedNames_of_parent (founded : file.Founded) {outer : Handle .type}
    (inside : (file.typeAt type).parent = some outer) :
    file.nestedNames type = file.nestedNames outer ++ [(file.typeAt type).name] := by
  rw [nestedNames, founded.enclosingTypes_of_parent inside, List.map_append]
  rfl

theorem binaryNameOf_outermost (file : File) (name : String) :
    file.binaryNameOf name none = nestedIn file.package "$" [name] :=
  (nestedIn_singleton file.package "$" name).symm

theorem binaryNameOf_inside {outer : Handle .type} {names : List String} (nonempty : names ≠ [])
    (named : (file.typeAt outer).binaryName = nestedIn file.package "$" names) (name : String) :
    file.binaryNameOf name (some outer) = nestedIn file.package "$" (names ++ [name]) := by
  rw [binaryNameOf, named]
  exact nestedIn_concat file.package rfl nonempty name

/-- The binary name of a type is made of the package and the names of the types around it. -/
theorem Assembled.binaryName_nested (assembled : file.Assembled)
    (known : type.index < file.types.size) :
    (file.typeAt type).binaryName = nestedIn file.package "$" (file.nestedNames type) := by
  have founded := assembled.founded
  generalize place : type.index = i at known
  induction i using Nat.strongRecOn generalizing type with
  | _ i inductionHypothesis =>
      subst place
      have named : (file.typeAt type).binaryName =
          file.binaryNameOf (file.typeAt type).name (file.typeAt type).parent :=
        assembled.binaryName_eq _ (naming_mem known)
      rw [named]
      cases inside : (file.typeAt type).parent with
      | none => rw [nestedNames_of_outermost inside, binaryNameOf_outermost]
      | some outer =>
          have before := founded.type_parent_lt inside
          rw [founded.nestedNames_of_parent inside]
          exact binaryNameOf_inside (file.nestedNames_ne_nil outer)
            (inductionHypothesis _ before rfl (Nat.lt_trans before known)) _

/-! ### Types added one inside the other -/

/-- Add a type inside the type that was added last. -/
def addInside (around : File × Handle .type) (type : String × Option Position) :
    File × Handle .type :=
  around.1.addType type.1 (some around.2) type.2

/-- Add a type, and then types each of which is nested in the one before. -/
def addNested (first : String × Option Position) (inner : List (String × Option Position))
    (file : File) : File × Handle .type :=
  inner.foldl addInside (file.addType first.1 none first.2)

theorem binaryName_addType (file : File) (name : String) (parent : Option (Handle .type))
    (position : Option Position) :
    ((file.addType name parent position).1.typeAt (file.addType name parent position).2).binaryName =
        file.binaryNameOf name parent ∧
      (file.addType name parent position).1.package = file.package := by
  obtain ⟨grown, package_kept⟩ :=
    file.kept_pushType name (file.binaryNameOf name parent) parent false position
  refine ⟨?_, package_kept⟩
  have sizes : file.namings.length = file.types.size := by
    rw [namings, List.length_map, Array.length_toList]
  have found : (file.namings ++ [⟨name, file.binaryNameOf name parent, parent⟩])[file.namings.length]? =
      some ⟨name, file.binaryNameOf name parent, parent⟩ := List.getElem?_concat_length
  rw [← grown, sizes] at found
  have added := naming_of_found found
  exact congrArg Naming.binaryName added

theorem binaryName_foldl_addInside {around : File × Handle .type} {names : List String}
    (nonempty : names ≠ [])
    (named : (around.1.typeAt around.2).binaryName = nestedIn around.1.package "$" names)
    (inner : List (String × Option Position)) :
    ((inner.foldl addInside around).1.typeAt (inner.foldl addInside around).2).binaryName =
      nestedIn around.1.package "$" (names ++ inner.map Prod.fst) := by
  induction inner generalizing around names with
  | nil => rw [List.foldl_nil, List.map_nil, List.append_nil, named]
  | cons type rest inductionHypothesis =>
      obtain ⟨added, package_kept⟩ :=
        binaryName_addType around.1 type.1 (some around.2) type.2
      have inside : ((addInside around type).1.typeAt (addInside around type).2).binaryName =
          nestedIn (addInside around type).1.package "$" (names ++ [type.1]) := by
        rw [addInside, package_kept, ← binaryNameOf_inside nonempty named]
        exact added
      rw [List.foldl_cons, inductionHypothesis (List.concat_ne_nil _ _) inside, List.append_assoc,
        addInside, package_kept]
      rfl

/-- Types that are added one inside the other are named after each other. -/
theorem binaryName_addNested (file : File) (first : String × Option Position)
    (inner : List (String × Option Position)) :
    ((file.addNested first inner).1.typeAt (file.addNested first inner).2).binaryName =
      nestedIn file.package "$" ((first :: inner).map Prod.fst) := by
  obtain ⟨added, package_kept⟩ := binaryName_addType file first.1 none first.2
  rw [binaryNameOf_outermost, ← package_kept] at added
  rw [← package_kept]
  exact binaryName_foldl_addInside (List.cons_ne_nil _ _) added inner

/-! ### Spelling -/

/-- Binary form changes a name once.  What it makes of the dotted spelling of a type is the binary name
that the type is given, when the types are added one inside the other and of every type of a file. -/
theorem binaryNames_spelled :
    (∀ name, toBinary (toBinary name) = toBinary name) ∧
    (∀ (file : File) (first : String × Option Position) (inner : List (String × Option Position)),
      (∀ segment ∈ Text.segments '.' file.package.toList, namesType segment = false) →
      (∀ name ∈ (first :: inner).map Prod.fst, '.' ∉ name.toList) →
      namesType first.1.toList = true →
      toBinary (nestedIn file.package "." ((first :: inner).map Prod.fst)) =
        ((file.addNested first inner).1.typeAt (file.addNested first inner).2).binaryName) ∧
    ∀ file : File, file.Assembled → ∀ type : Handle .type, type.index < file.types.size →
      (∀ segment ∈ Text.segments '.' file.package.toList, namesType segment = false) →
      (∀ name ∈ file.nestedNames type, '.' ∉ name.toList) →
      (∀ outermost ∈ (file.nestedNames type).head?, namesType outermost.toList = true) →
      toBinary (nestedIn file.package "." (file.nestedNames type)) =
        (file.typeAt type).binaryName := by
  refine ⟨toBinary_idem, fun file first inner plain clean isType => ?_, ?_⟩
  · rw [binaryName_addNested]
    exact toBinary_nestedIn isType clean plain
  · intro file assembled type known plain clean isType
    rw [assembled.binaryName_nested known]
    cases listed : file.nestedNames type with
    | nil => exact absurd listed (file.nestedNames_ne_nil type)
    | cons outermost inner =>
        rw [listed] at clean isType
        exact toBinary_nestedIn (isType outermost rfl) clean plain

/-- Types in a package with an empty segment, one of them without a name and one anonymous. -/
def unusualFile : File :=
  ({ path := "E.java", package := "p..q" } : File).performAll
    [.type "École" none none, .method ⟨0⟩ "run" none false none, .type "" (some ⟨0⟩) none,
      .anonymousType ⟨1⟩ none, .type "Deep" (some ⟨2⟩) none]

theorem binaryNames_spelled_unusual :
    unusualFile.Assembled ∧ unusualFile.nestedNames ⟨3⟩ = ["École", "", "1", "Deep"] ∧
      toBinary (nestedIn unusualFile.package "." (unusualFile.nestedNames ⟨3⟩)) =
        (unusualFile.typeAt ⟨3⟩).binaryName ∧
      (unusualFile.typeAt ⟨3⟩).binaryName = "p..q.École$$1$Deep" ∧
      toBinary (nestedIn unusualFile.package "." ["A", "x$y"]) =
        ((unusualFile.addNested ("A", none) [("x$y", none)]).1.typeAt ⟨5⟩).binaryName := by
  have admitted : ({ path := "E.java", package := "p..q" } : File).Admits
      [.type "École" none none, .method ⟨0⟩ "run" none false none, .type "" (some ⟨0⟩) none,
        .anonymousType ⟨1⟩ none, .type "Deep" (some ⟨2⟩) none] := by
    refine ⟨nofun, Nat.zero_lt_one, ?_, ?_, ?_, trivial⟩
    · rintro _ ⟨⟩
      exact Nat.zero_lt_one
    · change _ < _
      decide +kernel
    · rintro _ ⟨⟩
      decide +kernel
  have assembled : unusualFile.Assembled :=
    .of_reachable ((Reachable.empty "E.java" "p..q").performAll admitted)
  have names : unusualFile.nestedNames ⟨3⟩ = ["École", "", "1", "Deep"] := by decide +kernel
  have plain : ∀ segment ∈ Text.segments '.' unusualFile.package.toList, namesType segment = false := by
    decide +kernel
  obtain ⟨-, added, spelled⟩ := binaryNames_spelled
  refine ⟨assembled, names, spelled unusualFile assembled ⟨3⟩ (by decide +kernel) plain ?_ ?_, ?_, ?_⟩
  · rw [names]
    decide +kernel
  · rw [names]
    decide +kernel
  · decide +kernel
  · exact added unusualFile ("A", none) [("x$y", none)] plain (by decide +kernel) (by decide +kernel)

end File

end Correlate.Source
