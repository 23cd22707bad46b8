/-
Module: Correlate.Proofs.Bridges
Purpose: Which bridges a run matches.
Main exports: Matching.run_bridges, Matching.run_takes_bridge
-/
import Correlate.Proofs.Matching.Runs

namespace Correlate.Matching

/-!
Matching by name leaves bridges out.  A method that is still open after that may take any method of
the compiled type whose id its signature denotes, and this may be a bridge.
-/

variable {plan : Plan} {files : List Source.File}

/-- A method is matched with a bridge only if its signature denotes that, lambdas aside: these are
matched by where they stand. -/
theorem run_bridges (built : plan.pool.IsBuilt) (reachable : ∀ file ∈ files, file.Reachable)
    (unlinked : ∀ file ∈ files, ∀ element, file.isLinked element = false) :
    ∀ file ∈ (run plan files).files, ∀ (method : Source.Handle .method)
      (bridge : Compiled.Handle .method), file.linkedMethod? method = some bridge →
      (file.methodAt method).kind ≠ .lambda →
      (plan.pool.methodAt bridge).modifiers.isBridge = true →
        ∃ type : Source.Handle .type, method ∈ (file.typeAt type).methods ∧
          (plan.pool.methodAt bridge).id ∈ file.signatureIds type method := by
  intro file member method bridge linked declared isBridge
  have fitted := (run_sound built reachable unlinked).fitted 0 file member
  obtain ⟨id, found⟩ := Source.File.linkedMethod_iff.mp linked
  exact (fitted.fits method.ref ⟨bridge, id⟩ found).of_bridge fitted.formed declared isBridge

/-! ### A bridge that is matched -/

/-- A bridge, and a method of its name with more parameters. -/
def bridgePlan : Plan :=
  let steps : List Compiled.Step :=
    [.type "p.A", .method ⟨0⟩ { name := "f", params := ["int"], returnType := "void" } [.bridge],
      .method ⟨0⟩ { name := "f", params := ["long", "long"], returnType := "void" } {}]
  { pool := (({} : Compiled.Builder).performAll steps).1.finish.pool }

/-- A method with the signature of the bridge, and one without parameters. -/
def bridgeFile : Source.File :=
  ({ path := "p/A.src.json", package := "p" } : Source.File).performAll
    [.type "A" none none, .method ⟨0⟩ "f" none false none, .param ⟨1⟩ "x" (some "int") none,
      .method ⟨0⟩ "f" none false none]

theorem bridgePlan_isBuilt : bridgePlan.pool.IsBuilt := by
  refine ⟨_, Compiled.Builder.Reachable.empty.performAll ?admitted, rfl⟩
  exact ⟨trivial, Nat.zero_lt_one, Nat.zero_lt_one, trivial⟩

theorem bridgeFile_reachable : ∀ file ∈ [bridgeFile], file.Reachable := by
  refine List.forall_mem_singleton.mpr ?_
  refine (Source.File.Reachable.empty "p/A.src.json" "p").performAll ?admitted
  exact ⟨nofun, Nat.zero_lt_one, Nat.one_lt_two, Nat.zero_lt_one, trivial⟩

theorem bridgeFile_unlinked : ∀ file ∈ [bridgeFile], ∀ element, file.isLinked element = false :=
  List.forall_mem_singleton.mpr fun _ => rfl

/-- The file after the run. -/
def bridgeResult : Source.File :=
  (run bridgePlan [bridgeFile]).files.headD default

theorem bridgeResult_mem : bridgeResult ∈ (run bridgePlan [bridgeFile]).files :=
  headD_mem_run bridgePlan_isBuilt bridgeFile_reachable bridgeFile_unlinked

/-- The bridge is matched with the method that has its signature. -/
theorem run_takes_bridge :
    bridgePlan.pool.IsBuilt ∧ (∀ file ∈ [bridgeFile], file.Reachable) ∧
      (∀ file ∈ [bridgeFile], ∀ element, file.isLinked element = false) ∧
      bridgeResult ∈ (run bridgePlan [bridgeFile]).files ∧
      bridgeResult.linkedMethod? ⟨1⟩ = some ⟨0⟩ ∧ (bridgeResult.methodAt ⟨1⟩).kind ≠ .lambda ∧
        (bridgePlan.pool.methodAt ⟨0⟩).modifiers.isBridge = true :=
  ⟨bridgePlan_isBuilt, bridgeFile_reachable, bridgeFile_unlinked, bridgeResult_mem,
    by decide +kernel⟩

theorem run_bridges_sample : ∃ type : Source.Handle .type,
    (⟨1⟩ : Source.Handle .method) ∈ (bridgeResult.typeAt type).methods ∧
      "<p.A: void f(int)>" ∈ bridgeResult.signatureIds type ⟨1⟩ :=
  run_bridges bridgePlan_isBuilt bridgeFile_reachable bridgeFile_unlinked bridgeResult
    bridgeResult_mem ⟨1⟩ ⟨0⟩ (by decide +kernel) (by decide +kernel) (by decide +kernel)

end Correlate.Matching
