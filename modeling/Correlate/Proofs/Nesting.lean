/-
Module: Correlate.Proofs.Nesting
Purpose: Reading and matching bound the nesting of lambdas alike.
Main exports: Matching.run_notices, Matching.nesting_bounds_agree
-/
import Correlate.Matching.Run
import Correlate.Proofs.Matching.Additions

namespace Correlate.Matching

/-!
Two recursions count how deeply lambdas are nested: reading goes down the document, matching goes down
the pairs of lambdas that it makes.  Whatever the first lets pass the second enters.
-/

variable {plan : Plan} {files : List Source.File}

/-- What is noted in a run is permitted, if only the depth of lambdas could be spoken of in vain. -/
theorem run_notices {permitted : Finding → Prop}
    (usual : ∀ finding, finding ≠ .deepLambda → permitted finding)
    (room : ∀ file ∈ files, permitted .deepLambda ∨ file.Shallow) :
    ∀ notice ∈ (run plan files).ledger.notices, permitted notice.finding := by
  have matched (outcome : Outcome)
      (before : ∀ notice ∈ outcome.ledger.notices, permitted notice.finding) :
      ∀ notice ∈ (files.foldl (matchFile plan) outcome).ledger.notices,
        permitted notice.finding := by
    induction files generalizing outcome with
    | nil => exact before
    | cons file rest inductionHypothesis =>
        refine inductionHypothesis (fun other member => room other (List.mem_cons_of_mem _ member))
          (matchFile plan outcome file) fun notice noted => ?_
        have adds := @State.matchTypes_adds permitted (plan.setting outcome.files.length)
          { toLedger := outcome.ledger, file } usual (room file List.mem_cons_self)
        exact (adds.notices notice noted).elim (before notice) id
  exact matched {} fun notice noted => absurd noted (Array.not_mem_empty notice)

/-- A document is read if and only if its types outside all others have names and no chain of lambdas
in a body is longer than the limit.  No run over files that are read reports a construct that is not
supported, which is what a body beyond the limit would be. -/
theorem nesting_bounds_agree :
    (∀ (path : String) (document : Source.Document),
      (∃ file, Source.File.ofDocument path document = .ok file) ↔
        (∀ node ∈ document.types, node.name.isSome = true) ∧
          ∀ body ∈ document.bodies, Source.NestsWithin maxLambdaNesting body) ∧
    ∀ (plan : Plan) (files : List Source.File),
      (∀ file ∈ files, ∃ path document, Source.File.ofDocument path document = .ok file) →
      ∀ notice ∈ (run plan files).ledger.notices,
        notice.diagnostic.kind ≠ .unsupportedConstruct := by
  refine ⟨fun path document => Source.File.ofDocument_succeeds_iff, ?_⟩
  intro plan files lowered
  refine @run_notices plan files (fun finding => finding.kind ≠ .unsupportedConstruct) ?_ ?_
  · intro finding usual
    cases finding <;> first | exact absurd rfl usual | nofun
  · intro file member
    obtain ⟨path, document, same⟩ := lowered file member
    exact .inr (Source.File.shallow_of_lowered same)

/-! ### Lambdas as deep as may be -/

/-- So many lambdas, each in the body of the one before it. -/
def nestedBody : Nat → List Source.BodyElement
  | 0 => []
  | n + 1 => [.lambda [] (nestedBody n) none]

def nestedDocument (n : Nat) : Source.Document where
  types := [{ name := some "Nest", methods := [{ name := "f0", body := nestedBody n }] }]

/-- A compiled method for the method, and one for each of the lambdas in it. -/
def nestedPlan (n : Nat) : Plan :=
  let methods : List Compiled.Step := (List.range (n + 1)).map fun i =>
    .method ⟨0⟩ { name := s!"f{i}", params := [], returnType := "void" } {}
  let lambdas : List Compiled.Step := (List.range n).map fun i =>
    .lambda ⟨i⟩ s!"<Nest: void f{i + 1}()>" none
  { pool := (({} : Compiled.Builder).performAll (.type "Nest" :: methods ++ lambdas)).1.finish.pool }

theorem nestsWithin_nestedBody (n : Nat) : Source.NestsWithin n (nestedBody n) := by
  induction n with
  | zero => exact Source.nestsWithin_iff.mpr nofun
  | succ n inductionHypothesis =>
      refine Source.nestsWithin_iff.mpr (List.forall_mem_singleton.mpr ?_)
      rintro _ _ _ ⟨⟩
      exact ⟨n, rfl, inductionHypothesis⟩

theorem lambdaChain_nestedBody (n : Nat) : Source.LambdaChain (nestedBody n) n := by
  induction n with
  | zero => exact .nil []
  | succ n inductionHypothesis => exact .cons List.mem_cons_self inductionHypothesis

theorem bodies_nestedDocument (n : Nat) : (nestedDocument n).bodies = [nestedBody n] := rfl

theorem nesting_bounds_agree_nested :
    (∃ file, Source.File.ofDocument "Nest.java" (nestedDocument maxLambdaNesting) = .ok file ∧
      ∀ notice ∈ (run (nestedPlan maxLambdaNesting) [file]).ledger.notices,
        notice.diagnostic.kind ≠ .unsupportedConstruct) ∧
    ¬ ∃ file,
      Source.File.ofDocument "Nest.java" (nestedDocument (maxLambdaNesting + 1)) = .ok file := by
  obtain ⟨succeeds, runs⟩ := nesting_bounds_agree
  constructor
  · obtain ⟨file, lowered⟩ := (succeeds "Nest.java" (nestedDocument maxLambdaNesting)).mpr
      ⟨by decide, List.forall_mem_singleton.mpr (nestsWithin_nestedBody maxLambdaNesting)⟩
    exact ⟨file, lowered, runs (nestedPlan maxLambdaNesting) [file]
      (List.forall_mem_singleton.mpr ⟨_, _, lowered⟩)⟩
  · intro lowered
    have within := ((succeeds _ _).mp lowered).2
    rw [bodies_nestedDocument, List.forall_mem_singleton] at within
    exact absurd (within _ (lambdaChain_nestedBody _)) (Nat.not_succ_le_self maxLambdaNesting)

/-- All lambdas of a chain are matched, down to the innermost one. -/
example : (Source.File.ofDocument "Nest.java" (nestedDocument 3)).toOption.map (fun file =>
    (run (nestedPlan 3) [file]).files.map fun matched =>
      (matched.methodHandles true).map fun lambda => matched.isLinked lambda) =
    some [[true, true, true]] := by
  decide +kernel

end Correlate.Matching
