/-
Module: Correlate.Proofs.WordArithmetic
Purpose: Which sums and differences of a run are words.
Main exports: WordOperation, Totals, MayCompute, InMemory, StaysInWords, run_staysInWords
-/
import Mathlib.Algebra.Order.BigOperators.Group.List
import Mathlib.Algebra.Order.Ring.Nat
import Correlate.Json.Writer
import Correlate.Proofs.ArityTables
import Correlate.Proofs.Consumption
import Correlate.Proofs.Matching.Additions
import Correlate.Proofs.Source.ArgumentCounts
import Correlate.Proofs.StandIns
import Correlate.Proofs.VariableArity
import Correlate.Source.FrontEnd

namespace Correlate

/-! ### Counting -/

namespace Statistics

variable {files : List Source.File}

theorem tally_cons (file : Source.File) (rest : List Source.File) (kind : ElementKind) :
    (tally (file :: rest) kind).all =
      ((file.elements kind).filter file.counts).length + (tally rest kind).all := by
  simp only [tally, List.flatMap_cons, List.length_append, List.length_map]

theorem matched_le_all {entry : ElementKind × Tally} (listed : entry ∈ collect files) :
    entry.2.matched ≤ entry.2.all := by
  obtain ⟨kind, _, rfl⟩ := List.mem_map.mp listed
  exact List.countP_le_length

/-- No more elements are counted than there are. -/
theorem sum_all_le (files : List Source.File) :
    ((collect files).map fun entry => entry.2.all).sum ≤
      (files.map fun file => file.allElements.length).sum := by
  rw [collect, List.map_map]
  induction files with
  | nil => decide
  | cons file rest inductionHypothesis =>
      have own : (countedKinds.map fun kind =>
          ((file.elements kind).filter file.counts).length).sum ≤ file.allElements.length := by
        obtain ⟨kinds, same, among⟩ : countedKinds.Subperm ElementKind.all := by decide
        rw [Source.File.allElements, List.length_flatMap, ← (same.map _).sum_eq]
        refine Nat.le_trans ((among.map _).sum_le_sum fun _ _ => Nat.zero_le _) ?_
        exact List.sum_le_sum fun kind _ => List.length_filter_le _ _
      have split : ((fun entry : ElementKind × Tally => entry.2.all) ∘ fun kind =>
          (kind, tally (file :: rest) kind)) = fun kind =>
          ((file.elements kind).filter file.counts).length + (tally rest kind).all :=
        funext fun kind => tally_cons file rest kind
      rw [split, List.sum_map_add, List.map_cons, List.sum_cons]
      exact Nat.add_le_add own inductionHypothesis

end Statistics

namespace Matching

/-!
A run adds and subtracts words.  Most of what it adds counts something that is there, so memory bounds
it, or is bounded by a limit of its own.  The number of arguments of a source call is neither: it is
whatever word the document gives.  The number after it is a word for every word but the last one, and
where the program asks for the number after the last word, it stops.
-/

/-! ### What a run computes -/

/-- A sum or a difference of words. -/
inductive WordOperation where
  | add (one other : Nat)
  | sub (whole part : Nat)
deriving DecidableEq, Repr

/-- The result is a word as well. -/
def WordOperation.InRange : WordOperation → Prop
  | .add one other => one + other < Text.wordLimit
  | .sub whole part => part ≤ whole

/-- The last word. -/
def lastWord : Nat := Text.wordLimit - 1

example : lastWord = 18446744073709551615 := rfl

/-- Numbers that a run adds up one after the other. -/
inductive Totals (plan : Plan) (files : List Source.File) : List Nat → Prop where
  /-- The elements of a kind that count are counted. -/
  | counted {entry : ElementKind × Tally}
      (listed : entry ∈ Statistics.collect (run plan files).files) :
      Totals plan files (List.replicate entry.2.all 1)
  /-- So are those of them that are matched. -/
  | matched {entry : ElementKind × Tally}
      (listed : entry ∈ Statistics.collect (run plan files).files) :
      Totals plan files (List.replicate entry.2.matched 1)
  /-- The elements that are not matched are counted over all kinds. -/
  | unmatched : Totals plan files
      ((Statistics.collect (run plan files).files).map fun entry => entry.2.all - entry.2.matched)
  /-- The elements in a report are counted over all compiled elements. -/
  | reported (found : List Diagnostic) : Totals plan files
      ((Report.ofOutcome plan found (run plan files)).entries.map fun entry => entry.2.length)

/-- The sums and differences that a run may compute on numbers of arguments, parameters and elements,
and on depths.  Which of them it does compute depends on what is still open when it gets there.
Differences that end at zero are left out, and places in a text or a list, which are below its
length. -/
inductive MayCompute (plan : Plan) (files : List Source.File) : WordOperation → Prop where
  /-- A call may be one of variable arity if the number after that of its arguments reaches the
  arity. -/
  | arguments {file : Source.File} (member : file ∈ (run plan files).files)
      {call : Source.Handle .invocation} (known : call.index < file.invocations.size) :
      MayCompute plan files (.add (file.invocationAt call).arity 1)
  /-- A constructor of an inner type takes the outer instances and then its own parameters. -/
  | innerParams {file : Source.File} (member : file ∈ (run plan files).files)
      (type : Compiled.Handle .type) (method : Source.Handle .method) :
      MayCompute plan files
        (.add (plan.pool.typeAt type).outerTypes.length (file.paramTypes method).length)
  /-- Parameters are paired from the last one on, where the compiled method has enough of them. -/
  | captured {file : Source.File} (member : file ∈ (run plan files).files)
      {method : Source.Handle .method} {compiled : Compiled.Handle .method}
      (enough : (file.methodAt method).params.length ≤
        (plan.pool.methodAt compiled).params.length) :
      MayCompute plan files (.sub (plan.pool.methodAt compiled).params.length
        (file.methodAt method).params.length)
  /-- The place of a copied parameter among those of the source, if no captured value is copied. -/
  | copied {captured index : Nat} (declared : captured ≤ index) :
      MayCompute plan files (.sub index captured)
  /-- The lambdas in a body are a level deeper than the body. -/
  | nested {file : Source.File} (member : file ∈ (run plan files).files)
      {method : Source.Handle .method} (known : method.index < file.methods.size) :
      MayCompute plan files (.add (file.nestingDepth method) 1)
  /-- The super types of a type that a walk enters are a step further. -/
  | climbed {entered : List String} {stop : Compiled.Stop}
      (enters : Compiled.Pool.passesBy entered stop = false) : MayCompute plan files (.add stop.2 1)
  /-- An angle bracket opens after some others in the name of a type. -/
  | bracket {text : String} (sized : text.length < Text.wordLimit) {front : List Char}
      (opens : front ++ ['<'] <+: text.toList) :
      MayCompute plan files (.add (TypeName.openBrackets 0 front) 1)
  /-- Numbers are added up. -/
  | total {front back : List Nat} {next : Nat} (totals : Totals plan files (front ++ next :: back)) :
      MayCompute plan files (.add front.sum next)
  /-- Of the elements of a kind that count, those that are matched are taken away. -/
  | rest {entry : ElementKind × Tally}
      (listed : entry ∈ Statistics.collect (run plan files).files) :
      MayCompute plan files (.sub entry.2.all entry.2.matched)

/-- Entries of two bytes each can all be addressed. -/
def IsAddressable {α : Type} (list : List α) : Prop :=
  2 * list.length < Text.wordLimit
deriving Decidable

/-- What a run works on is in memory: lists of names and of parameters, whose entries take more than a
byte, and the elements of all files at the end. -/
structure InMemory (plan : Plan) (files : List Source.File) : Prop where
  outerTypes : ∀ type ∈ plan.pool.types, IsAddressable type.outerTypes
  arguments : ∀ call ∈ plan.pool.invocations, IsAddressable call.signature.params
  params : ∀ file ∈ files, ∀ method ∈ file.methods, IsAddressable method.params
  elements : ((run plan files).files.map fun file => file.allElements.length).sum < Text.wordLimit

namespace IsAddressable

variable {α β : Type}

/-- Where a table has no entry, the list is empty. -/
theorem getD [Inhabited α] {table : Array α} (read : α → List β) (missing : read default = [])
    (entries : ∀ entry ∈ table, IsAddressable (read entry)) (i : Nat) :
    IsAddressable (read (table[i]?.getD default)) := by
  cases found : table[i]? with
  | none =>
      rw [Option.getD_none, missing]
      exact (by decide : 0 < Text.wordLimit)
  | some entry => exact entries entry (Array.mem_of_getElem? found)

theorem inRange_add {one : List α} {other : List β} (addressable : IsAddressable one)
    (addressable' : IsAddressable other) : (WordOperation.add one.length other.length).InRange := by
  simp only [IsAddressable, WordOperation.InRange] at *
  omega

theorem inRange_next {list : List α} (addressable : IsAddressable list) :
    (WordOperation.add list.length 1).InRange := by
  have several : 1 < Text.wordLimit := by decide
  simp only [IsAddressable, WordOperation.InRange] at *
  omega

end IsAddressable

/-! ### Totals -/

section Totals

variable {plan : Plan} {files : List Source.File}

/-- Adding up numbers leads to no word that is greater than their sum. -/
theorem inRange_of_sum {front back : List Nat} {next : Nat}
    (bounded : (front ++ next :: back).sum < Text.wordLimit) :
    (WordOperation.add front.sum next).InRange := by
  rw [List.sum_append, List.sum_cons, ← Nat.add_assoc] at bounded
  exact Nat.lt_of_le_of_lt (Nat.le_add_right _ _) bounded

theorem sum_reported (found : List Diagnostic) (outcome : Outcome) :
    ((Report.ofOutcome plan found outcome).entries.map fun entry => entry.2.length).sum =
      (Report.ofOutcome plan found outcome).elementCount := by
  rw [Report.elementCount, List.length_flatMap]

/-- The numbers that a run adds up are no more than the elements it has. -/
theorem Totals.sum_le (consistent : (run plan files).Consistent plan) {numbers : List Nat}
    (totals : Totals plan files numbers) :
    numbers.sum ≤ ((run plan files).files.map fun file => file.allElements.length).sum := by
  have all_le {entry : ElementKind × Tally}
      (listed : entry ∈ Statistics.collect (run plan files).files) :=
    Nat.le_trans (List.single_le_sum (fun _ _ => Nat.zero_le _) _
      (List.mem_map_of_mem (f := fun entry => entry.2.all) listed)) (Statistics.sum_all_le _)
  cases totals with
  | counted listed =>
      rw [List.sum_replicate_nat, Nat.mul_one]
      exact all_le listed
  | matched listed =>
      rw [List.sum_replicate_nat, Nat.mul_one]
      exact Nat.le_trans (Statistics.matched_le_all listed) (all_le listed)
  | unmatched =>
      exact Nat.le_trans (List.sum_le_sum fun _ _ => Nat.sub_le _ _) (Statistics.sum_all_le _)
  | reported found =>
      rw [sum_reported, consistent.counted]
      exact length_linkedElements_le _

end Totals

/-! ### Whole runs -/

section Runs

variable {plan : Plan} {files : List Source.File} {outcome : Outcome}

/-- A stand-in for a call has as many arguments as the compiled call. -/
theorem Standing.exists_arity_eq {pool : Compiled.Pool} {file : Source.File}
    {call : Source.Handle .invocation} {other : Compiled.Ref}
    (standing : Standing pool file call other) :
    ∃ compiled, (file.invocationAt call).arity = (pool.invocationAt compiled).arity := by
  obtain ⟨i⟩ := call
  generalize isCall : Source.Handle.ref (⟨i⟩ : Source.Handle .invocation) = own at standing
  cases standing with
  | field | allocation => cases isCall
  | call _ _ _ _ _ told =>
      cases isCall
      exact ⟨_, congrArg Source.Invocation.arity told⟩

/-- A call at the end of a run is in the source, or it has as many arguments as a compiled call. -/
theorem Outcome.Sound.invocation_of_final (sound : outcome.Sound plan files) {file : Source.File}
    (member : file ∈ outcome.files) {call : Source.Handle .invocation}
    (known : call.index < file.invocations.size) :
    (∃ before ∈ files, call.index < before.invocations.size ∧
      before.invocationAt call = file.invocationAt call) ∨
    ∃ compiled, (file.invocationAt call).arity = (plan.pool.invocationAt compiled).arity := by
  obtain ⟨i, found⟩ := List.mem_iff_getElem?.mp member
  obtain ⟨start, final, turn, rfl⟩ := sound.turn_of_final found
  by_cases old : call.index < start.file.invocations.size
  · have same := turn.extended.invocationAt old
    exact .inl ⟨start.file, List.mem_of_getElem? turn.start_file, old, same.symm⟩
  · have isCreated : Created files outcome.files ⟨i, call⟩ :=
      ⟨start.file, final.file, turn.start_file, found, Nat.le_of_not_lt old, known⟩
    obtain ⟨_, _, isFinal, _, _, _, standing⟩ := sound.created isCreated
    obtain rfl := Option.some.inj (isFinal.symm.trans found)
    exact .inr standing.exists_arity_eq

/-- Some call of the source has as many arguments as the last word. -/
def HasLastWord (files : List Source.File) : Prop :=
  ∃ file ∈ files, ∃ call : Source.Handle .invocation,
    call.index < file.invocations.size ∧ (file.invocationAt call).arity = lastWord

/-- The last word has no next one. -/
theorem not_inRange_next : ¬ (WordOperation.add lastWord 1).InRange :=
  Nat.lt_irrefl Text.wordLimit

theorem inRange_next {n : Nat} (isWord : n < Text.wordLimit) :
    (WordOperation.add n 1).InRange ∨ n = lastWord := by
  have positive : 0 < Text.wordLimit := by decide
  simp only [WordOperation.InRange, lastWord]
  omega

section Read

variable (built : plan.pool.IsBuilt)
  (read : ∀ file ∈ files, ∃ path text, Source.FrontEnd.model.read path text = .ok file)

include read

theorem lowered_of_read {file : Source.File} (member : file ∈ files) :
    ∃ path document, Source.File.ofDocument path document = .ok file := by
  obtain ⟨path, text, isRead⟩ := read file member
  obtain ⟨_, document, _, lowered⟩ := Source.File.exists_document_of_read isRead
  exact ⟨path, document, lowered⟩

theorem reachable_of_read (file : Source.File) (member : file ∈ files) : file.Reachable := by
  obtain ⟨_, _, lowered⟩ := lowered_of_read read member
  exact (Source.File.ofDocument_read lowered).reachable

theorem unlinked_of_read (file : Source.File) (member : file ∈ files) :
    ∀ element, file.isLinked element = false := by
  obtain ⟨_, _, lowered⟩ := lowered_of_read read member
  exact Source.File.unlinked_of_lowered lowered

theorem authoritative_of_read (file : Source.File) (member : file ∈ files) : ∀ element : Source.Ref,
    element.index < file.count element.kind → file.isAuthoritative element = true := by
  obtain ⟨_, _, lowered⟩ := lowered_of_read read member
  exact Source.File.authoritative_of_lowered lowered

theorem arity_lt_of_member {file : Source.File} (member : file ∈ files)
    {call : Source.Handle .invocation} (known : call.index < file.invocations.size) :
    (file.invocationAt call).arity < Text.wordLimit := by
  obtain ⟨path, text, isRead⟩ := read file member
  exact Source.File.arity_lt_of_read isRead known

include built

theorem sound_of_read : (run plan files).Sound plan files :=
  run_sound built (reachable_of_read read) (unlinked_of_read read)

/-- Lambdas are nested within the limit, at the end of the run as before. -/
theorem nestingDepth_le_of_read {file : Source.File} (member : file ∈ (run plan files).files)
    {method : Source.Handle .method} (known : method.index < file.methods.size) :
    file.nestingDepth method ≤ maxLambdaNesting := by
  have sound := sound_of_read built read
  obtain ⟨before, isBefore, extended⟩ := sound.exists_start member
  obtain ⟨_, _, lowered⟩ := lowered_of_read read isBefore
  have shallow := extended.shallow (Source.File.shallow_of_lowered lowered)
  exact shallow.nestingDepth_le (sound.fitted 0 _ member).formed known

/-- The number after that of the arguments of a call is a word at the end of the run, unless the call is
in the source and has as many arguments as the last word. -/
theorem inRange_next_or (memory : InMemory plan files) {file : Source.File}
    (member : file ∈ (run plan files).files) {call : Source.Handle .invocation}
    (known : call.index < file.invocations.size) :
    (WordOperation.add (file.invocationAt call).arity 1).InRange ∨
      ∃ before ∈ files, call.index < before.invocations.size ∧
        before.invocationAt call = file.invocationAt call ∧
        (file.invocationAt call).arity = lastWord := by
  rcases (sound_of_read built read).invocation_of_final member known with
    ⟨before, isBefore, old, same⟩ | ⟨compiled, same⟩
  · have isWord := arity_lt_of_member read isBefore old
    rw [same] at isWord
    exact (inRange_next isWord).imp_right fun isLast => ⟨before, isBefore, old, same, isLast⟩
  · have passed : IsAddressable (plan.pool.invocationAt compiled).signature.params :=
      .getD (fun call : Compiled.Invocation => call.signature.params) rfl memory.arguments
        compiled.index
    rw [same]
    exact .inl passed.inRange_next

/-- Whatever a run over files that are read may compute is a word, if it is not the number after that
of the arguments of a call that has as many as the last word. -/
theorem MayCompute.inRange_or (memory : InMemory plan files) {operation : WordOperation}
    (computes : MayCompute plan files operation) :
    operation.InRange ∨ operation = .add lastWord 1 ∧ HasLastWord files := by
  have sound := sound_of_read built read
  cases computes with
  | arguments member known =>
      refine (inRange_next_or built read memory member known).imp_right ?_
      rintro ⟨before, isBefore, old, same, isLast⟩
      rw [← same] at isLast ⊢
      exact ⟨by rw [isLast], before, isBefore, _, old, isLast⟩
  | innerParams member type method =>
      obtain ⟨before, isBefore, extended⟩ := sound.exists_start member
      have outer : IsAddressable (plan.pool.typeAt type).outerTypes :=
        .getD Compiled.TypeDecl.outerTypes rfl memory.outerTypes type.index
      have own : IsAddressable (before.methodAt method).params :=
        .getD Source.Method.params rfl (memory.params before isBefore) method.index
      rw [extended.paramTypes, Source.File.paramTypes, List.length_map]
      exact .inl (outer.inRange_add own)
  | captured member enough => exact .inl enough
  | copied declared => exact .inl declared
  | nested member known =>
      have depth := nestingDepth_le_of_read built read member known
      exact .inl (Nat.lt_of_le_of_lt (Nat.succ_le_succ depth) (by decide))
  | @climbed entered stop enters =>
      obtain ⟨⟨_, depth⟩, _⟩ : (stop.1 ≠ Compiled.rootType ∧ stop.2 ≤ Compiled.maxHierarchyDepth) ∧
          stop.1 ∉ entered := by
        simpa [Compiled.Pool.passesBy] using enters
      exact .inl (Nat.lt_of_le_of_lt (Nat.succ_le_succ depth) (by decide))
  | @bracket text sized front opens =>
      have depth := TypeName.openBrackets_le 0 front
      have length := opens.length_le
      rw [List.length_append, String.length_toList, List.length_singleton] at length
      exact .inl (show _ + _ < _ by omega)
  | total totals =>
      exact .inl (inRange_of_sum
        (Nat.lt_of_le_of_lt (totals.sum_le sound.consistent) memory.elements))
  | rest listed => exact .inl (Statistics.matched_le_all listed)

/-- The number after the last word may be asked for where a call has as many arguments. -/
theorem HasLastWord.mayCompute (present : HasLastWord files) :
    MayCompute plan files (.add lastWord 1) := by
  obtain ⟨before, isBefore, call, known, isLast⟩ := present
  obtain ⟨file, member, extended⟩ := (sound_of_read built read).exists_final isBefore
  have stays := extended.invocations.size_le
  rw [← isLast, ← extended.invocationAt known]
  exact .arguments member (Nat.lt_of_lt_of_le known stays)

/-- The program comes through, unless a call of the source with as many arguments as the last word has
to be compared with a compiled call. -/
theorem run?_eq_or_of_read (memory : InMemory plan files) :
    run? plan files = some (run plan files) ∨
      ∃ file ∈ files, ∃ call other, (file.invocationAt call).arity = lastWord ∧
        Exceeds plan.pool plan.arities file call other := by
  refine (run?_eq_or built (reachable_of_read read) (unlinked_of_read read)).imp_right ?_
  rintro ⟨file, member, call, other, exceeds⟩
  have beyond := (ArityTable.isPlausible?_eq_none_iff.mp exceeds.unanswered).1
  obtain ⟨before, isBefore, old, same, isLast⟩ :=
    (inRange_next_or built read memory member exceeds.known).resolve_left (Nat.not_lt.mpr beyond)
  rw [← same] at isLast
  exact ⟨before, isBefore, call, other, isLast, exceeds.of_same old same⟩

end Read

/-- How far the numbers of a run stay words, and what follows where they do not. -/
structure StaysInWords (plan : Plan) (files : List Source.File) : Prop where
  /-- There is one sum at most that is no word. -/
  inRange : ∀ operation, MayCompute plan files operation →
    (operation.InRange ↔ operation ≠ .add lastWord 1)
  /-- It may be asked for exactly if some call of the source has as many arguments as the last word. -/
  exceeds : MayCompute plan files (.add lastWord 1) ↔ HasLastWord files
  /-- Of a call with fewer arguments it is told whether it is plausible, and it is exactly if among the
  declared arities one alone is no more than the next number, and this is the compiled arity. -/
  compared : ∀ name taken given, given < lastWord →
    ∃ answer, plan.arities.isPlausible? name taken given = some answer ∧
      (answer = true ↔ plan.arities.OnlyForm name given taken)
  /-- Of a call with as many arguments as the last word it is told exactly if the method has no arity
  that would have to be compared. -/
  unanswered : ∀ name taken, plan.arities.isPlausible? name taken lastWord = none ↔
    ∃ arity, plan.arities.Lists name arity
  /-- The calls that the program regroups, if it does, are those that fit over all natural numbers. -/
  regrouped : ∀ registry method name given calls,
    plan.arities.regroup? plan.pool registry method name given = some calls →
      plan.arities.regroup plan.pool registry method name given = calls
  /-- Unless there is such a call in the source, and a compiled call of its name to compare it with, the
  program comes through. -/
  comesThrough : run? plan files = some (run plan files) ∨
    ∃ file ∈ files, ∃ call other, (file.invocationAt call).arity = lastWord ∧
      Exceeds plan.pool plan.arities file call other
  /-- Where these two are the only calls of the name in two matched methods, it stops. -/
  stops : ∀ file ∈ (run plan files).files, ∀ source compiled,
    file.linkedMethod? source = some compiled → ∀ name call other,
      (State.callsNamed file source name).filter (fun own => file.isAuthoritative own.ref) = [call] →
      State.compiledCallsNamed plan.pool compiled name = [other] →
      Exceeds plan.pool plan.arities file call other → run? plan files = none

/-- In a run over files that are read, every sum and every difference is a word, but for the number
after the last word.  Only a call with as many arguments as the last word may ask for that one, and the
program may stop there; whether variable arity explains any other call is decided as it is over all
natural numbers. -/
theorem run_staysInWords (built : plan.pool.IsBuilt)
    (read : ∀ file ∈ files, ∃ path text, Source.FrontEnd.model.read path text = .ok file)
    (memory : InMemory plan files) : StaysInWords plan files where
  inRange operation computes := by
    refine ⟨?_, fun other => ?_⟩
    · rintro inRange rfl
      exact not_inRange_next inRange
    · exact (computes.inRange_or built read memory).resolve_right fun last => other last.1
  exceeds := by
    refine ⟨fun computes => ?_, fun present => present.mayCompute built read⟩
    exact ((computes.inRange_or built read memory).resolve_left not_inRange_next).2
  compared name taken given bounded := by
    have isWord : given + 1 < Text.wordLimit := Nat.add_lt_of_lt_sub bounded
    exact ⟨_, ArityTable.isPlausible?_eq_some_iff.mpr ⟨.inl isWord, rfl⟩,
      ArityTable.isPlausible_iff (.build _ _)⟩
  unanswered name taken := by
    have beyond : Text.wordLimit ≤ lastWord + 1 := Nat.le_refl _
    rw [ArityTable.isPlausible?_eq_none_iff, and_iff_right beyond]
  regrouped _ _ _ _ _ answered := ArityTable.regroup_of_some answered
  comesThrough := run?_eq_or_of_read built read memory
  stops file member source compiled linked name call other only compiledOnly exceeds := by
    have known : source.index < file.methods.size := by
      obtain ⟨_, found⟩ := Source.File.linkedMethod_iff.mp linked
      exact ((sound_of_read built read).fitted 0 _ member).formed.linked source.ref
        (Source.File.isLinked_of_link found)
    exact run?_eq_none_of_onlyCall built (reachable_of_read read) (unlinked_of_read read)
      (authoritative_of_read read) member linked (nestingDepth_le_of_read built read member known)
      only compiledOnly exceeds

end Runs

/-! ### A list of arguments -/

/-- A method that makes a list. -/
def listPlan : Plan :=
  let steps : List Compiled.Step :=
    [.type "p.A", .method ⟨0⟩ { name := "f", params := [], returnType := "void" } {},
      .invocation ⟨0⟩ "java.util.Arrays"
        { name := "asList", params := ["java.lang.Object[]"], returnType := "java.util.List" } none]
  { pool := (({} : Compiled.Builder).performAll steps).1.finish.pool }

/-- The document of its source, where the list has the given number of entries. -/
def listDocument (args : Nat) : Json :=
  let call : Json := .record
    [("kind", .text "call"), ("name", .text "asList"), ("args", .natural args)]
  let method : Json := .record
    [("name", .text "f"), ("returnType", .text "void"), ("body", .array [call])]
  .record [("package", .text "p"),
    ("types", .array [.record [("name", .text "A"), ("methods", .array [method])]])]

/-- The file that the document describes. -/
def listFile (args : Nat) : Source.File :=
  (Source.FrontEnd.model.read "p/A.src.json" (listDocument args).compact).toOption.getD default

theorem listPlan_isBuilt : listPlan.pool.IsBuilt := by
  refine ⟨_, Compiled.Builder.Reachable.empty.performAll ?admitted, rfl⟩
  exact ⟨trivial, Nat.zero_lt_one, Nat.zero_lt_one, trivial⟩

theorem listFile_read {args : Nat} (accepted : (Source.FrontEnd.model.read "p/A.src.json"
    (listDocument args).compact).toOption.isSome = true) :
    ∀ file ∈ [listFile args], ∃ path text, Source.FrontEnd.model.read path text = .ok file := by
  refine List.forall_mem_singleton.mpr ⟨"p/A.src.json", (listDocument args).compact, ?_⟩
  rw [listFile]
  cases isRead : Source.FrontEnd.model.read "p/A.src.json" (listDocument args).compact with
  | ok file => rfl
  | error message =>
      rw [isRead] at accepted
      cases accepted

/-- The file with three entries, and the end of the run. -/
theorem listFile_three :
    (Source.FrontEnd.model.read "p/A.src.json" (listDocument 3).compact).toOption.isSome = true ∧
      (∀ method ∈ (listFile 3).methods, IsAddressable method.params) ∧
      ((run listPlan [listFile 3]).files.map fun file => file.allElements.length).sum <
        Text.wordLimit ∧
      (run listPlan [listFile 3]).ledger.overflow = false := by
  decide +kernel

theorem listPlan_inMemory : InMemory listPlan [listFile 3] where
  outerTypes := by decide +kernel
  arguments := by decide +kernel
  params := List.forall_mem_singleton.mpr listFile_three.2.1
  elements := listFile_three.2.2.1

theorem run?_listFile_three : run? listPlan [listFile 3] = some (run listPlan [listFile 3]) := by
  rw [run?, listFile_three.2.2.2]
  rfl

/-- The method has a single form, which takes an array alone. -/
theorem listPlan_arities :
    listPlan.arities.arities? "java.util.Arrays.asList" = some [1] := by
  decide +kernel

theorem listPlan_onlyForm (given : Nat) :
    listPlan.arities.OnlyForm "java.util.Arrays.asList" given 1 := by
  refine ⟨[1], listPlan_arities, fun arity => ?_⟩
  rw [List.mem_singleton, and_iff_left_iff_imp]
  rintro rfl
  exact Nat.le_add_left 1 given

/-- With three entries every sum is a word, and the call is plausible. -/
theorem run_staysInWords_list : StaysInWords listPlan [listFile 3] ∧
    listPlan.arities.isPlausible? "java.util.Arrays.asList" 1 3 = some true ∧
    run? listPlan [listFile 3] = some (run listPlan [listFile 3]) := by
  have stays := run_staysInWords listPlan_isBuilt (listFile_read listFile_three.1)
    listPlan_inMemory
  obtain ⟨answer, told, same⟩ := stays.compared "java.util.Arrays.asList" 1 3 (by decide)
  rw [same.mpr (listPlan_onlyForm 3)] at told
  exact ⟨stays, told, run?_listFile_three⟩

/-- The file with as many entries as the last word, and its call. -/
theorem listFile_lastWord :
    (Source.FrontEnd.model.read "p/A.src.json" (listDocument lastWord).compact).toOption.isSome =
        true ∧
      0 < (listFile lastWord).invocations.size ∧
      ((listFile lastWord).invocationAt ⟨0⟩).arity = lastWord ∧
      (run listPlan [listFile lastWord]).ledger.overflow = true := by
  decide +kernel

/-- With as many entries as the last word, the next number is no word.  There is no answer whether the
only form of the method is plausible, and the program stops. -/
theorem list_next_exceeds :
    (∃ path text, Source.FrontEnd.model.read path text = .ok (listFile lastWord)) ∧
      (∃ operation, MayCompute listPlan [listFile lastWord] operation ∧ ¬ operation.InRange) ∧
      listPlan.arities.OnlyForm "java.util.Arrays.asList" lastWord 1 ∧
      listPlan.arities.isPlausible? "java.util.Arrays.asList" 1 lastWord = none ∧
      run? listPlan [listFile lastWord] = none := by
  obtain ⟨accepted, known, isLast, raised⟩ := listFile_lastWord
  have read := listFile_read accepted
  have present : HasLastWord [listFile lastWord] :=
    ⟨_, List.mem_singleton_self _, ⟨0⟩, known, isLast⟩
  have listed : listPlan.arities.Lists "java.util.Arrays.asList" 1 :=
    ⟨[1], listPlan_arities, List.mem_singleton_self 1⟩
  have stops : run? listPlan [listFile lastWord] = none := by
    rw [run?, raised]
    rfl
  exact ⟨read _ (List.mem_singleton_self _),
    ⟨_, present.mayCompute listPlan_isBuilt read, not_inRange_next⟩, listPlan_onlyForm lastWord,
    ArityTable.isPlausible?_eq_none_iff.mpr ⟨Nat.le_refl _, 1, listed⟩, stops⟩

end Matching

end Correlate
