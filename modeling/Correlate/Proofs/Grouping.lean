/-
Module: Correlate.Proofs.Grouping
Purpose: Groups keep the items they are made of, and lists without repetitions keep their entries.
Main exports: distinct_map, distinct_of_nodup, groupBy_congr, groupBy_keys_apart,
  mem_flatMap_groupBy, nodup_flatMap_groupBy
-/
import Mathlib.Data.List.Nodup
import Correlate.Grouping

namespace Correlate

/-! ### Lists without repetitions -/

section Distinct

variable {α β : Type} [DecidableEq α] [DecidableEq β]

theorem length_distinct_le (items : List α) : (distinct items).length ≤ items.length := by
  induction items with
  | nil => exact Nat.le_refl _
  | cons first rest inductionHypothesis =>
      exact Nat.succ_le_succ (Nat.le_trans (List.length_filter_le _ _) inductionHypothesis)

theorem distinct_of_nodup {items : List α} (items_nodup : items.Nodup) :
    distinct items = items := by
  induction items with
  | nil => rfl
  | cons first rest inductionHypothesis =>
      obtain ⟨fresh, rest_nodup⟩ := List.nodup_cons.mp items_nodup
      rw [distinct, inductionHypothesis rest_nodup, List.filter_eq_self.mpr]
      rintro item member
      exact decide_eq_true fun same => fresh (same ▸ member)

/-- What is told apart before is told apart after. -/
theorem distinct_map {change : α → β} (injective : Function.Injective change) (items : List α) :
    distinct (items.map change) = (distinct items).map change := by
  induction items with
  | nil => rfl
  | cons first rest inductionHypothesis =>
      rw [List.map_cons, distinct, inductionHypothesis, distinct, List.map_cons, List.filter_map]
      simp [Function.comp_def, injective.eq_iff]

end Distinct

/-! ### Groups -/

variable {κ α : Type} [DecidableEq κ]

/-- Only the keys of the items matter. -/
theorem groupBy_congr {key other : α → κ} {items : List α}
    (same : ∀ item ∈ items, key item = other item) : groupBy key items = groupBy other items := by
  rw [groupBy, groupBy, List.map_congr_left same]
  apply List.map_congr_left
  intro k _
  have members : items.filter (key · = k) = items.filter (other · = k) :=
    List.filter_congr fun item member => by rw [same item member]
  rw [members]

/-- Different groups have different keys. -/
theorem groupBy_keys_apart (key : α → κ) (items : List α) :
    (groupBy key items).Pairwise fun group next => group.1 ≠ next.1 := by
  rw [groupBy, List.pairwise_map]
  exact (nodup_distinct (items.map key)).imp fun different => different

/-- The items of a key form a group. -/
theorem mem_groupBy_of_mem {key : α → κ} {items : List α} {item : α} (member : item ∈ items) :
    (key item, items.filter (key · = key item)) ∈ groupBy key items :=
  mem_groupBy.mpr ⟨⟨item, member, rfl⟩, rfl⟩

/-- An item is in the group of its key. -/
theorem mem_group_iff {key : α → κ} {items : List α} {k : κ} {members : List α}
    (isGroup : (k, members) ∈ groupBy key items) {item : α} :
    item ∈ members ↔ item ∈ items ∧ key item = k := by
  rw [(mem_groupBy.mp isGroup).2, List.mem_filter, decide_eq_true_iff]

/-- The groups together have the items. -/
theorem mem_flatMap_groupBy {key : α → κ} {items : List α} {item : α} :
    item ∈ (groupBy key items).flatMap Prod.snd ↔ item ∈ items := by
  rw [List.mem_flatMap]
  constructor
  · rintro ⟨⟨k, members⟩, isGroup, member⟩
    exact ((mem_group_iff isGroup).mp member).1
  · intro member
    exact ⟨_, mem_groupBy_of_mem member, List.mem_filter.mpr ⟨member, by simp⟩⟩

/-- No item is in two groups. -/
theorem nodup_flatMap_groupBy {key : α → κ} {items : List α} (items_nodup : items.Nodup) :
    ((groupBy key items).flatMap Prod.snd).Nodup := by
  rw [List.nodup_flatMap]
  constructor
  · rintro ⟨k, members⟩ isGroup
    rw [(mem_groupBy.mp isGroup).2]
    exact items_nodup.filter _
  · refine (groupBy_keys_apart key items).imp_of_mem
      fun {group next} isGroup isNext different item member memberNext => ?_
    exact different (((mem_group_iff isGroup).mp member).2.symm.trans
      ((mem_group_iff isNext).mp memberNext).2)

end Correlate
