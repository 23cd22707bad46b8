/-
Module: Correlate.Grouping
Purpose: Lists sorted into groups by a key, with keys and members in the order of first appearance.
Main exports: distinct, Grouping, groupBy, assign
-/

namespace Correlate

/-- The entries of a list without repetitions: each where it occurs first. -/
def distinct {α : Type} [DecidableEq α] : List α → List α
  | [] => []
  | x :: rest => x :: (distinct rest).filter (· ≠ x)

@[simp]
theorem mem_distinct {α : Type} [DecidableEq α] {x : α} {items : List α} :
    x ∈ distinct items ↔ x ∈ items := by
  induction items with
  | nil => simp [distinct]
  | cons first rest ih =>
      by_cases same : x = first <;> simp [distinct, ih, same]

theorem nodup_distinct {α : Type} [DecidableEq α] (items : List α) : (distinct items).Nodup := by
  induction items with
  | nil => simp [distinct]
  | cons first rest ih =>
      rw [distinct, List.nodup_cons]
      exact ⟨by simp, ih.filter _⟩

/-- Keys in the order of their first appearance, each with its members in order. -/
abbrev Grouping (κ α : Type) := List (κ × List α)

/-- The members of a group; none if there is no such group. -/
def Grouping.members {κ α : Type} [DecidableEq κ] (groups : Grouping κ α) (key : κ) : List α :=
  (groups.lookup key).getD []

/-- The items of a list grouped by their key. -/
def groupBy {κ α : Type} [DecidableEq κ] (key : α → κ) (items : List α) : Grouping κ α :=
  (distinct (items.map key)).map fun k => (k, items.filter (key · = k))

theorem mem_groupBy {κ α : Type} [DecidableEq κ] {key : α → κ} {items : List α} {k : κ}
    {members : List α} :
    (k, members) ∈ groupBy key items ↔
      (∃ item ∈ items, key item = k) ∧ members = items.filter (key · = k) := by
  simp only [groupBy, List.mem_map, mem_distinct, Prod.mk.injEq]
  constructor
  · rintro ⟨_, present, rfl, rfl⟩
    exact ⟨present, rfl⟩
  · rintro ⟨present, rfl⟩
    exact ⟨k, present, rfl, rfl⟩

theorem members_groupBy {κ α : Type} [DecidableEq κ] (key : α → κ) (items : List α) (k : κ) :
    (groupBy key items).members k = items.filter (key · = k) := by
  have lookup (keys : List κ) (covered : k ∈ keys ∨ items.filter (key · = k) = []) :
      ((keys.map fun k => (k, items.filter (key · = k))).lookup k).getD [] =
        items.filter (key · = k) := by
    induction keys with
    | nil => simpa using covered.symm
    | cons first rest ih =>
        by_cases same : k = first
        · simp [same]
        · rw [List.map_cons, List.lookup_cons, beq_eq_false_iff_ne.2 same]
          exact ih (by simpa [same] using covered)
  apply lookup
  by_cases present : ∃ item ∈ items, key item = k
  · exact Or.inl (by simpa using present)
  · refine Or.inr (List.filter_eq_nil_iff.2 fun item member same => present ?_)
    exact ⟨item, member, by simpa using same⟩

/-- The value of a key set: in place if the key is present, else at the end. -/
def assign {κ β : Type} [DecidableEq κ] (key : κ) (value : β) : List (κ × β) → List (κ × β)
  | [] => [(key, value)]
  | (k, v) :: rest => if k = key then (k, value) :: rest else (k, v) :: assign key value rest

end Correlate
