/-
Module: Correlate.Proofs.Entries
Purpose: When the entries of a report list a single source element each.
Main exports: DistinctIds, run_entries_single_iff
-/
import Correlate.Compiled.Model
import Correlate.Proofs.Consumption

namespace Correlate.Matching

/-!
Compiled elements are taken by their places in the pool, but a report lists them by their ids.  Types
and methods are indexed by their ids.  A field that is listed again for its type is added again, with
the same id.
-/

/-- No two compiled elements that are taken have the same id. -/
def DistinctIds (pool : Compiled.Pool) (registry : Registry) : Prop :=
  ∀ first second, registry.isConsumed first = true → registry.isConsumed second = true →
    pool.elementId first = pool.elementId second → first = second

/-- Every entry of the merged matches lists something. -/
theorem Registry.ne_nil_of_mem_merge {registry : Registry} {entry : String × List SourceHandle}
    (member : entry ∈ registry.merge) : entry.2 ≠ [] := by
  obtain ⟨⟨id, group⟩, isGroup, rfl⟩ := List.mem_map.mp member
  obtain ⟨⟨first, listed, same⟩, rfl⟩ := mem_groupBy.mp isGroup
  refine List.ne_nil_of_mem (List.mem_map_of_mem (List.mem_filter.mpr ⟨listed, ?_⟩))
  exact decide_eq_true same

/-- Entries list single elements if and only if the ids of what is taken are distinct. -/
theorem Accounted.merge_single_iff {pool : Compiled.Pool} {files : List Source.File}
    {registry : Registry} (accounted : Accounted pool files registry) :
    (∀ entry ∈ registry.merge, entry.2.length = 1) ↔ DistinctIds pool registry := by
  have merged := accounted.mergedOnce
  constructor
  · intro single first second firstTaken secondTaken same
    obtain ⟨handle, link, linked, rfl⟩ := accounted.isConsumed_iff.mp firstTaken
    obtain ⟨other, otherLink, otherLinked, rfl⟩ := accounted.isConsumed_iff.mp secondTaken
    rw [← accounted.id_eq linked, ← accounted.id_eq otherLinked] at same
    obtain ⟨group, isEntry, listed⟩ := (merged.listed _ _).mpr ⟨link, linked, same⟩
    obtain ⟨otherGroup, isOther, otherListed⟩ :=
      (merged.listed _ _).mpr ⟨otherLink, otherLinked, rfl⟩
    obtain rfl : group = otherGroup :=
      congrArg Prod.snd (List.inj_on_of_nodup_map merged.keys_nodup isEntry isOther rfl)
    obtain ⟨only, rfl⟩ := List.length_eq_one_iff.mp (single _ isEntry)
    obtain rfl := List.mem_singleton.mp listed
    obtain rfl := List.mem_singleton.mp otherListed
    rw [Option.some.inj (linked.symm.trans otherLinked)]
  · rintro distinct ⟨id, group⟩ isEntry
    have group_nodup : group.Nodup := (List.nodup_flatMap.mp merged.handles_nodup).1 _ isEntry
    obtain ⟨first, rest, rfl⟩ := List.exists_cons_of_ne_nil (Registry.ne_nil_of_mem_merge isEntry)
    -- All that one entry lists is matched with elements of one id, so with the same element.
    have same (handle : SourceHandle) (listed : handle ∈ first :: rest) : handle = first := by
      obtain ⟨link, linked, isId⟩ := (merged.listed id handle).mp ⟨_, isEntry, listed⟩
      obtain ⟨firstLink, firstLinked, isFirstId⟩ :=
        (merged.listed id first).mp ⟨_, isEntry, List.mem_cons_self⟩
      refine accounted.once linked firstLinked (distinct _ _ ?_ ?_ ?_)
      · exact accounted.isConsumed_iff.mpr ⟨handle, link, linked, rfl⟩
      · exact accounted.isConsumed_iff.mpr ⟨first, firstLink, firstLinked, rfl⟩
      · rw [← accounted.id_eq linked, ← accounted.id_eq firstLinked, isId, isFirstId]
    have alone : rest = [] := List.eq_nil_iff_forall_not_mem.mpr fun handle listed =>
      (List.nodup_cons.mp group_nodup).1 (same handle (List.mem_cons_of_mem _ listed) ▸ listed)
    rw [alone]
    rfl

variable {plan : Plan} {files : List Source.File}

/-- The entries of the report on a run list single elements if and only if the ids of the compiled
elements that the run takes are distinct. -/
theorem run_entries_single_iff (built : plan.pool.IsBuilt)
    (reachable : ∀ file ∈ files, file.Reachable)
    (unlinked : ∀ file ∈ files, ∀ element, file.isLinked element = false)
    (found : List Diagnostic) :
    (∀ entry ∈ (Report.ofOutcome plan found (run plan files)).entries, entry.2.length = 1) ↔
      DistinctIds plan.pool (run plan files).ledger.registry := by
  rw [← (run_sound built reachable unlinked).accounted.merge_single_iff, Report.ofOutcome]
  simp only [List.forall_mem_map, List.length_map]

theorem run_entries_single_sample :
    DistinctIds samplePlan.pool (run samplePlan [sampleFile]).ledger.registry :=
  (run_entries_single_iff samplePlan_isBuilt sampleFile_reachable sampleFile_unlinked []).mp
    (by decide +kernel)

/-- A type with a field. -/
def fieldModel : Compiled.Model :=
  { types := [{ id := "p.A", fields := [{ name := "x", type := "int" }] }] }

/-- The source of the type. -/
def fieldFile : Source.File :=
  ({ path := "p/A.src.json", package := "p" } : Source.File).performAll
    [.type "A" none none, .field ⟨0⟩ "x" "int" none]

/-- Where two models list the same type with a field, the source field takes one of the two compiled
fields, and a stand-in takes the other: one entry lists both. -/
theorem run_entries_relisted :
    ∃ builder, ((({} : Compiled.Builder).addModel "m.ir.json" fieldModel).bind
        fun builder => builder.addModel "n.ir.json" fieldModel) = .ok builder ∧
      let plan : Plan := { pool := builder.finish.pool }
      ∃ entry ∈ (Report.ofOutcome plan [] (run plan [fieldFile])).entries,
        entry.1 = "<p.A: int x>" ∧ entry.2.length = 2 :=
  ⟨_, rfl, by decide +kernel⟩

end Correlate.Matching
