/-
Module: Correlate.Proofs.Preservation
Purpose: What a run leaves alone in the files that it matches.
Main exports: Matching.run_preserves
-/
import Correlate.Matching.Run
import Correlate.Proofs.Matching.Additions

namespace Correlate.Matching

theorem matchFile_files (plan : Plan) (outcome : Outcome) (file : Source.File) :
    ∃ later, file.Preserves later ∧
      (matchFile plan outcome file).files = outcome.files ++ [later] := by
  have adds := @State.matchTypes_adds (fun _ => True) (plan.setting outcome.files.length)
    { toLedger := outcome.ledger, file } (fun _ _ => trivial) (.inl trivial)
  exact ⟨_, adds.preserved, rfl⟩

/-- A run hands out the files that it was given, in their order.  Everything in them is as it was, but
for links that were absent, stand-ins at the end of the lists of fields, calls and allocations, and
the types that the names used in linked types denote. -/
theorem run_preserves (plan : Plan) (files : List Source.File) :
    List.Forall₂ Source.File.Preserves files (run plan files).files := by
  have matched (outcome : Outcome) : ∃ laters, List.Forall₂ Source.File.Preserves files laters ∧
      (files.foldl (matchFile plan) outcome).files = outcome.files ++ laters := by
    induction files generalizing outcome with
    | nil => exact ⟨[], .nil, (List.append_nil _).symm⟩
    | cons file rest inductionHypothesis =>
        obtain ⟨later, preserved, handedOut⟩ := matchFile_files plan outcome file
        obtain ⟨laters, all_preserved, rest_handedOut⟩ :=
          inductionHypothesis (matchFile plan outcome file)
        refine ⟨later :: laters, .cons preserved all_preserved, ?_⟩
        rw [List.foldl_cons, rest_handedOut, handedOut, List.append_assoc, List.singleton_append]
  obtain ⟨laters, all_preserved, handedOut⟩ := matched {}
  rw [List.nil_append] at handedOut
  exact handedOut ▸ all_preserved

end Correlate.Matching
