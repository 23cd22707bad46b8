/-
Module: Correlate.Proofs.Isolation
Purpose: Files that declare different types are matched as if each were alone.
Main exports: declaredNames, Apart, Outcome.Isolated, Isolation, run_isolated
-/
import Mathlib.Data.List.Induction
import Correlate.Proofs.Matching.Runs
import Correlate.Proofs.Matching.TwinTypes
import Correlate.Report.Basic

namespace Correlate

/-! ### Counting -/

namespace Statistics

variable {files other : List Source.File}

/-- Counting does not depend on the order of the files. -/
theorem tally_perm (perm : other.Perm files) (kind : ElementKind) :
    tally other kind = tally files kind := by
  let counted (file : Source.File) : List (Source.File × Source.Ref) :=
    ((file.elements kind).filter file.counts).map fun element => (file, element)
  have elements : (other.flatMap counted).Perm (files.flatMap counted) :=
    perm.flatMap_right counted
  show Tally.mk ((other.flatMap counted).countP _) (other.flatMap counted).length = _
  rw [elements.countP_eq, elements.length_eq]
  rfl

theorem collect_perm (perm : other.Perm files) : collect other = collect files :=
  List.map_congr_left fun kind _ => congrArg (Prod.mk kind) (tally_perm perm kind)

end Statistics

namespace Matching

/-! ### What belongs to a file -/

/-- The binary names of the types of a file. -/
def declaredNames (file : Source.File) : List String :=
  file.typeHandles.map fun type => (file.typeAt type).binaryName

/-- No two files declare types of the same name. -/
def Apart (files : List Source.File) : Prop :=
  files.Pairwise fun file other => (declaredNames file).Disjoint (declaredNames other)

/-- The compiled elements of the types that a file declares. -/
def territoryOf {pool : Compiled.Pool} (formed : pool.WellFormed) (keeps : pool.KeepsLambdas)
    (file : Source.File) : Territory pool :=
  .ofTypes formed keeps fun type => ∃ name ∈ declaredNames file, pool.typeNamed? name = some type

/-- Nothing belongs to two files that are apart. -/
theorem not_has_of_disjoint {pool : Compiled.Pool} {formed : pool.WellFormed}
    {keeps : pool.KeepsLambdas} {file other : Source.File}
    (disjoint : (declaredNames file).Disjoint (declaredNames other)) {element : Compiled.Ref}
    (inside : (territoryOf formed keeps file).has element) :
    ¬ (territoryOf formed keeps other).has element := by
  rintro ⟨otherType, otherOwned, otherName, otherDeclared, otherFound⟩
  obtain ⟨type, owned, name, declared, found⟩ := inside
  obtain rfl := Option.some.inj (owned.symm.trans otherOwned)
  obtain rfl := formed.name_unique found otherFound
  exact disjoint declared otherDeclared

theorem Apart.perm {files other : List Source.File} (apart : Apart files)
    (perm : other.Perm files) : Apart other :=
  (perm.pairwise_iff List.disjoint_symm).mpr apart

/-! ### One file after others -/

/-- A file is matched in a run of its own. -/
def alone (plan : Plan) (file : Source.File) : State :=
  (Outcome.open {} file).matchTypes (plan.setting 0)

section Files

variable {plan : Plan} {files : List Source.File} {outcome : Outcome} {file : Source.File}
  {formed : plan.pool.WellFormed} {keeps : plan.pool.KeepsLambdas}

/-- Where nothing that belongs to a file is taken, the file is matched as it is alone. -/
theorem matchTypes_twins (unlinked : ∀ element, file.isLinked element = false)
    (fresh : ∀ element, (territoryOf formed keeps file).has element →
      outcome.ledger.registry.isConsumed element = false) (i : Nat) :
    Twins (territoryOf formed keeps file) (outcome.open file)
      ((outcome.open file).matchTypes (plan.setting i)) (alone plan file) := by
  have start : Twins (territoryOf formed keeps file) (outcome.open file) (outcome.open file)
      (Outcome.open {} file) := by
    constructor
    case file => rfl
    case pairs => rfl
    case notices => exact Array.append_empty.symm
    case alike => exact fun element inside => fresh element inside
    case confined => exact fun element taken => .inl taken
    case linked =>
      exact fun own link found =>
        absurd found (Source.File.not_link_of_unlinked (unlinked own))
    case entered => exact nofun
    case extended => exact .refl file
  have named : ∀ type ∈ file.typeHandles, ∀ compiledType,
      plan.pool.typeNamed? (file.typeAt type).binaryName = some compiledType →
        (territoryOf formed keeps file).has compiledType :=
    fun type listed compiledType found =>
      ⟨compiledType, rfl, _, List.mem_map_of_mem listed, found⟩
  -- The two settings differ in the number of the file, and in nothing else.
  exact @Twins.matchTypes (plan.setting i) 0 _ _ _ _ start named

/-- The files of an outcome are as they are alone, and whatever is taken belongs to one of them. -/
structure Outcome.Isolated (plan : Plan) (formed : plan.pool.WellFormed)
    (keeps : plan.pool.KeepsLambdas) (files : List Source.File) (outcome : Outcome) : Prop where
  matched : outcome.files = files.map fun file => (alone plan file).file
  notices : outcome.ledger.notices.toList =
    files.flatMap fun file => (alone plan file).notices.toList
  taken : ∀ element, outcome.ledger.registry.isConsumed element = true →
    ∃ file ∈ files, (territoryOf formed keeps file).has element

/-- A file that is apart from all files before it is matched as it is alone. -/
theorem Outcome.Isolated.twins (isolated : outcome.Isolated plan formed keeps files)
    (unlinked : ∀ element, file.isLinked element = false)
    (apart : ∀ other ∈ files, (declaredNames other).Disjoint (declaredNames file)) :
    Twins (territoryOf formed keeps file) (outcome.open file)
      ((outcome.open file).matchTypes (plan.setting outcome.files.length)) (alone plan file) := by
  apply matchTypes_twins unlinked
  intro element inside
  rw [Bool.eq_false_iff]
  intro taken
  obtain ⟨other, member, hasElement⟩ := isolated.taken element taken
  exact not_has_of_disjoint (apart other member) hasElement inside

/-- Matching the next file. -/
theorem Outcome.Isolated.matchFile (isolated : outcome.Isolated plan formed keeps files)
    (unlinked : ∀ element, file.isLinked element = false)
    (apart : ∀ other ∈ files, (declaredNames other).Disjoint (declaredNames file)) :
    (Matching.matchFile plan outcome file).Isolated plan formed keeps (files ++ [file]) := by
  have twins := isolated.twins unlinked apart
  constructor
  case matched =>
    show outcome.files ++ [_] = _
    rw [List.map_append, ← isolated.matched, List.map_singleton, ← twins.file]
    rfl
  case notices =>
    show ((outcome.open file).matchTypes _).notices.toList = _
    rw [twins.notices, Array.toList_append, List.flatMap_append, List.flatMap_singleton,
      ← isolated.notices]
    rfl
  case taken =>
    intro element taken
    rcases twins.confined element taken with before | inside
    · obtain ⟨other, member, hasElement⟩ := isolated.taken element before
      exact ⟨other, List.mem_append_left _ member, hasElement⟩
    · exact ⟨file, List.mem_append_right _ (List.mem_singleton_self file), inside⟩

variable (formed keeps) in
/-- All files of a run that are apart, before the facts are read. -/
theorem foldl_isolated (unlinked : ∀ file ∈ files, ∀ element, file.isLinked element = false)
    (apart : Apart files) :
    (files.foldl (Matching.matchFile plan) {}).Isolated plan formed keeps files := by
  -- From the end of the list: a file is matched against what the files before it have taken.
  induction files using List.reverseRecOn with
  | nil =>
      constructor
      case matched => rfl
      case notices => rfl
      case taken => exact nofun
  | append_singleton before file inductionHypothesis =>
      obtain ⟨apartBefore, _, apartLast⟩ := List.pairwise_append.mp apart
      have last := List.mem_singleton_self file
      rw [List.foldl_append]
      apply Outcome.Isolated.matchFile
      · apply inductionHypothesis _ apartBefore
        exact fun earlier isEarlier => unlinked earlier (List.mem_append_left _ isEarlier)
      · exact unlinked file (List.mem_append_right _ last)
      · exact fun earlier isEarlier => apartLast earlier isEarlier file last

end Files

/-! ### Whole runs -/

/-- The files of a run have no effect on each other. -/
structure Isolation (plan : Plan) (files : List Source.File) : Prop where
  /-- Every file ends as it does in a run of its own. -/
  matched : ∀ (i : Nat) file, files[i]? = some file →
    ∃ final, (run plan files).files[i]? = some final ∧ (run plan [file]).files = [final]
  /-- While a file is matched, the same is noted as in a run of its own. -/
  notices : ∀ before file after, files = before ++ file :: after →
    let outcome := before.foldl (matchFile plan) {}
    (matchFile plan outcome file).ledger.notices =
      outcome.ledger.notices ++ (run plan [file]).ledger.notices
  /-- Nothing else is noted. -/
  allNotices : (run plan files).ledger.notices.toList =
    files.flatMap fun file => (run plan [file]).ledger.notices.toList
  /-- A file ends the same in any order of the files. -/
  reordered : ∀ other, other.Perm files → ∀ (i j : Nat) file, files[i]? = some file →
    other[j]? = some file → (run plan other).files[j]? = (run plan files).files[i]?
  /-- In any order of the files, as many elements are not matched. -/
  unmatched : ∀ other, other.Perm files → ∀ found,
    (Report.ofOutcome plan found (run plan other)).unmatched =
      (Report.ofOutcome plan found (run plan files)).unmatched

section Run

variable {plan : Plan} {files : List Source.File}

/-- The files of a run are as they are alone. -/
theorem run_files (built : plan.pool.IsBuilt) (keeps : plan.pool.KeepsLambdas)
    (unlinked : ∀ file ∈ files, ∀ element, file.isLinked element = false) (apart : Apart files) :
    (run plan files).files = files.map fun file => (alone plan file).file :=
  (foldl_isolated built.wellFormed keeps unlinked apart).matched

/-- Where lambdas stay in their types, files that declare different types are matched without regard
to each other. -/
theorem run_isolated (built : plan.pool.IsBuilt) (keeps : plan.pool.KeepsLambdas)
    (unlinked : ∀ file ∈ files, ∀ element, file.isLinked element = false) (apart : Apart files) :
    Isolation plan files := by
  have ends := run_files built keeps unlinked apart
  have otherEnds {other : List Source.File} (perm : other.Perm files) :
      (run plan other).files = other.map fun file => (alone plan file).file :=
    run_files built keeps (fun file member => unlinked file (perm.mem_iff.mp member))
      (apart.perm perm)
  constructor
  case matched =>
    intro i file isFile
    refine ⟨(alone plan file).file, ?_, rfl⟩
    rw [ends, List.getElem?_map, isFile, Option.map_some]
  case notices =>
    rintro before file after rfl
    obtain ⟨apartBefore, _, apartLast⟩ := List.pairwise_append.mp apart
    have isolated := foldl_isolated built.wellFormed keeps
      (fun earlier isEarlier => unlinked earlier (List.mem_append_left _ isEarlier)) apartBefore
    have twins := isolated.twins (unlinked file (List.mem_append_right _ List.mem_cons_self))
      fun earlier isEarlier => apartLast earlier isEarlier file List.mem_cons_self
    exact twins.notices
  case allNotices => exact (foldl_isolated built.wellFormed keeps unlinked apart).notices
  case reordered =>
    intro other perm i j file isFile isOther
    rw [ends, otherEnds perm, List.getElem?_map, List.getElem?_map, isFile, isOther]
  case unmatched =>
    intro other perm found
    have same : Statistics.collect (run plan other).files =
        Statistics.collect (run plan files).files := by
      rw [ends, otherEnds perm]
      exact Statistics.collect_perm (perm.map _)
    exact congrArg Statistics.unmatched same

end Run

/-- Two types.  One creates a lambda and has the method that implements it; the other one has a
method of the same name. -/
def twoTypesPlan : Plan :=
  let method (name : String) : Compiled.Signature := { name, params := [], returnType := "void" }
  let steps : List Compiled.Step :=
    [.type "a.B", .method ⟨0⟩ (method "m") {}, .method ⟨0⟩ (method "lambda$m$0") {},
      .lambda ⟨0⟩ "<a.B: void lambda$m$0()>" none,
      .type "a.C", .method ⟨1⟩ (method "m") {}, .invocation ⟨2⟩ "a.B" (method "m") none]
  { pool := (({} : Compiled.Builder).performAll steps).1.finish.pool }

/-- The source of the type with the lambda. -/
def lambdaFile : Source.File :=
  ({ path := "B.java", package := "a" } : Source.File).performAll
    [.type "B" none none, .method ⟨0⟩ "m" none false none, .lambda ⟨1⟩ none]

/-- The source of the other type, with a call that was not compiled. -/
def callerFile : Source.File :=
  ({ path := "C.java", package := "a" } : Source.File).performAll
    [.type "C" none none, .method ⟨0⟩ "m" none false none, .invocation ⟨1⟩ "m" 0 none none none,
      .invocation ⟨1⟩ "stop" 0 none none none]

theorem run_isolated_twoTypes : Isolation twoTypesPlan [lambdaFile, callerFile] ∧
    (linkAt (run twoTypesPlan [lambdaFile, callerFile]).files ⟨0, .method, 2⟩).isSome := by
  have built : twoTypesPlan.pool.IsBuilt := by
    refine ⟨_, Compiled.Builder.Reachable.empty.performAll ?admitted, rfl⟩
    exact ⟨trivial, Nat.zero_lt_one, Nat.zero_lt_one, Nat.zero_lt_two, trivial, Nat.one_lt_two,
      Nat.lt_succ_self 2, trivial⟩
  have keeps : twoTypesPlan.pool.KeepsLambdas := by decide +kernel
  have unlinked : ∀ file ∈ [lambdaFile, callerFile], ∀ element, file.isLinked element = false :=
    List.forall_mem_cons.mpr ⟨fun _ => rfl, List.forall_mem_singleton.mpr fun _ => rfl⟩
  have apart : Apart [lambdaFile, callerFile] := by
    have disjoint : ∀ name ∈ declaredNames lambdaFile, name ∉ declaredNames callerFile := by
      decide +kernel
    exact List.pairwise_pair.mpr disjoint
  exact ⟨run_isolated built keeps unlinked apart, by decide +kernel⟩

end Matching

end Correlate
