/-
Module: Correlate.Proofs.Listing
Purpose: Tables whose entries are listed by the entries of another table that own them.
Main exports: places, Listed
-/
import Mathlib.Data.List.Nodup

namespace Correlate

/-!
An element of a file or of compiled code names its owner, and the owner lists its elements.  The two
directions agree if every owner lists the places of exactly its own entries, in ascending order.
`Listed` says so for one table of entries and one table of owners; the lemmas below say how it
survives what building does to either table.
-/

variable {α β : Type}

/-- The places of the entries of a table that satisfy a condition, in ascending order. -/
def places (table : Array α) (chosen : α → Bool) : List Nat :=
  (List.range table.size).filter fun i => table[i]?.any chosen

@[simp]
theorem mem_places {table : Array α} {chosen : α → Bool} {i : Nat} :
    i ∈ places table chosen ↔ ∃ entry, table[i]? = some entry ∧ chosen entry = true := by
  simp only [places, List.mem_filter, List.mem_range, Option.any_eq_true]
  constructor
  · intro member
    exact member.2
  · rintro ⟨entry, found, accepted⟩
    exact ⟨(Array.getElem?_eq_some_iff.mp found).1, entry, found, accepted⟩

/-- A change of one entry does not show in what it keeps of all of them. -/
theorem map_toList_modify (table : Array α) (place : Nat) {change : α → α} {read : α → β}
    (kept : ∀ entry, read (change entry) = read entry) :
    (table.modify place change).toList.map read = table.toList.map read := by
  apply List.ext_getElem?
  intro i
  rw [List.getElem?_map, List.getElem?_map, Array.getElem?_toList, Array.getElem?_toList,
    Array.getElem?_modify]
  split
  · cases table[i]? <;> simp [kept]
  · rfl

theorem nodup_places (table : Array α) (chosen : α → Bool) : (places table chosen).Nodup :=
  List.nodup_range.filter _

theorem pairwise_places (table : Array α) (chosen : α → Bool) :
    (places table chosen).Pairwise (· < ·) :=
  List.pairwise_lt_range.filter _

theorem places_push (table : Array α) (entry : α) (chosen : α → Bool) :
    places (table.push entry) chosen =
      places table chosen ++ if chosen entry then [table.size] else [] := by
  have old : (List.range table.size).filter (fun i => (table.push entry)[i]?.any chosen) =
      (List.range table.size).filter fun i => table[i]?.any chosen := by
    apply List.filter_congr
    intro i member
    rw [Array.getElem?_push, if_neg (Nat.ne_of_lt (List.mem_range.mp member))]
  rw [places, Array.size_push, List.range_succ, List.filter_append, old, places]
  cases accepted : chosen entry <;> simp [accepted]

/-- Places depend only on which entries satisfy the condition. -/
theorem places_congr {table other : Array α} {chosen accepted : α → Bool}
    (same : ∀ i : Nat, other[i]?.any accepted = table[i]?.any chosen)
    (size : other.size = table.size) :
    places other accepted = places table chosen := by
  rw [places, places, size]
  exact List.filter_congr fun i _ => same i

theorem places_modify (table : Array α) (i : Nat) (change : α → α) (chosen : α → Bool)
    (kept : ∀ entry, chosen (change entry) = chosen entry) :
    places (table.modify i change) chosen = places table chosen := by
  refine places_congr (fun j => ?_) Array.size_modify
  rw [Array.getElem?_modify]
  split
  · cases table[j]? <;> simp [kept]
  · rfl

theorem places_map (table : Array α) (change : α → α) (chosen : α → Bool)
    (kept : ∀ entry, chosen (change entry) = chosen entry) :
    places (table.map change) chosen = places table chosen := by
  refine places_congr (fun i => ?_) Array.size_map
  rw [Array.getElem?_map]
  cases table[i]? <;> simp [kept]

theorem places_append_of_all (table : Array α) (added : List α) (chosen : α → Bool)
    (accepted : ∀ entry ∈ added, chosen entry = true) :
    places (table ++ added) chosen = places table chosen ++ List.range' table.size added.length := by
  induction added generalizing table with
  | nil => simp
  | cons entry rest inductionHypothesis =>
      have first : chosen entry = true := accepted entry (by simp)
      have others := inductionHypothesis (table.push entry) fun other member =>
        accepted other (by simp [member])
      rw [Array.appendList_cons]
      simp [others, places_push, first, List.range'_succ]

theorem places_append_of_none (table : Array α) (added : List α) (chosen : α → Bool)
    (rejected : ∀ entry ∈ added, chosen entry = false) :
    places (table ++ added) chosen = places table chosen := by
  induction added generalizing table with
  | nil => simp
  | cons entry rest inductionHypothesis =>
      have first : chosen entry = false := rejected entry (by simp)
      have others := inductionHypothesis (table.push entry) fun other member =>
        rejected other (by simp [member])
      rw [Array.appendList_cons]
      simp [others, places_push, first]

/-- The entries of a table name the places of their owners, and every owner lists its entries. -/
structure Listed (entries : Array α) (owner : α → Option Nat) (owners : Array β)
    (list : β → List Nat) : Prop where
  /-- The owner of an entry exists. -/
  known : ∀ {i : Nat} {entry o}, entries[i]? = some entry → owner entry = some o → o < owners.size
  /-- An owner lists its own entries and no others. -/
  listed : ∀ {o : Nat} {holder}, owners[o]? = some holder →
    list holder = places entries fun entry => owner entry == some o

namespace Listed

variable {entries : Array α} {owner : α → Option Nat} {owners : Array β} {list : β → List Nat}

theorem empty : Listed (#[] : Array α) owner (#[] : Array β) list where
  known found := by simp at found
  listed found := by simp at found

theorem mem_iff (formed : Listed entries owner owners list) {o : Nat} {holder : β}
    (found : owners[o]? = some holder) {i : Nat} :
    i ∈ list holder ↔ ∃ entry, entries[i]? = some entry ∧ owner entry = some o := by
  rw [formed.listed found, mem_places]
  simp

theorem nodup (formed : Listed entries owner owners list) {o : Nat} {holder : β}
    (found : owners[o]? = some holder) : (list holder).Nodup := by
  rw [formed.listed found]
  exact nodup_places _ _

/-- A place with no entry is not a place of a new owner's list. -/
theorem places_of_unknown (formed : Listed entries owner owners list) {o : Nat}
    (unknown : owners.size ≤ o) : (places entries fun entry => owner entry == some o) = [] := by
  rw [List.eq_nil_iff_forall_not_mem]
  intro i member
  obtain ⟨entry, found, owned⟩ := mem_places.mp member
  exact Nat.not_lt.mpr unknown (formed.known found (by simpa using owned))

theorem mem_getD_iff [Inhabited β] (formed : Listed entries owner owners list)
    (unlisted : list default = []) {o i : Nat} :
    i ∈ list (owners[o]?.getD default) ↔
      ∃ entry, entries[i]? = some entry ∧ owner entry = some o := by
  cases found : owners[o]? with
  | some holder => exact formed.mem_iff found
  | none =>
      rw [Option.getD_none, unlisted]
      refine ⟨fun member => absurd member List.not_mem_nil, ?_⟩
      rintro ⟨entry, entryFound, owned⟩
      have known := formed.known entryFound owned
      exact absurd known (Nat.not_lt.mpr (Array.getElem?_eq_none_iff.mp found))

theorem nodup_getD [Inhabited β] (formed : Listed entries owner owners list)
    (unlisted : list default = []) (o : Nat) : (list (owners[o]?.getD default)).Nodup := by
  cases found : owners[o]? with
  | some holder => exact formed.nodup found
  | none => simp [unlisted]

theorem pairwise_getD [Inhabited β] (formed : Listed entries owner owners list)
    (unlisted : list default = []) (o : Nat) :
    (list (owners[o]?.getD default)).Pairwise (· < ·) := by
  cases found : owners[o]? with
  | some holder =>
      rw [Option.getD_some, formed.listed found]
      exact pairwise_places _ _
  | none => simp [unlisted]

/-- An entry is added and listed by its owner. -/
theorem push (formed : Listed entries owner owners list) {entry : α} {o : Nat}
    (owned : owner entry = some o) (known : o < owners.size) {change : β → β}
    (appended : ∀ holder, owners[o]? = some holder →
      list (change holder) = list holder ++ [entries.size]) :
    Listed (entries.push entry) owner (owners.modify o change) list where
  known := by
    intro i other o' found owned'
    rw [Array.size_modify]
    rw [Array.getElem?_push] at found
    split at found
    · obtain rfl := Option.some.inj found
      rw [owned] at owned'
      exact Option.some.inj owned' ▸ known
    · exact formed.known found owned'
  listed := by
    intro o' holder found
    rw [places_push, owned]
    rw [Array.getElem?_modify] at found
    split at found
    · next same =>
      subst same
      obtain ⟨old, oldFound, rfl⟩ := Option.map_eq_some_iff.mp found
      rw [appended old oldFound, formed.listed oldFound]
      simp
    · next other =>
      rw [formed.listed found]
      simp [other]

/-- An entry without owner is added. -/
theorem push_unowned (formed : Listed entries owner owners list) {entry : α}
    (unowned : owner entry = none) : Listed (entries.push entry) owner owners list where
  known := by
    intro i other o found owned
    rw [Array.getElem?_push] at found
    split at found
    · obtain rfl := Option.some.inj found
      simp [unowned] at owned
    · exact formed.known found owned
  listed := by
    intro o holder found
    rw [places_push, unowned, formed.listed found]
    simp

/-- An owner is changed in other respects. -/
theorem modify_owner (formed : Listed entries owner owners list) (o : Nat) {change : β → β}
    (kept : ∀ holder, list (change holder) = list holder) :
    Listed entries owner (owners.modify o change) list where
  known found owned := by
    rw [Array.size_modify]
    exact formed.known found owned
  listed := by
    intro o' holder found
    rw [Array.getElem?_modify] at found
    split at found
    · obtain ⟨old, oldFound, rfl⟩ := Option.map_eq_some_iff.mp found
      rw [kept, formed.listed oldFound]
    · exact formed.listed found

/-- An entry is changed in other respects. -/
theorem modify_entry (formed : Listed entries owner owners list) (i : Nat) {change : α → α}
    (kept : ∀ entry, owner (change entry) = owner entry) :
    Listed (entries.modify i change) owner owners list where
  known := by
    intro j entry o found owned
    rw [Array.getElem?_modify] at found
    split at found
    · obtain ⟨old, oldFound, rfl⟩ := Option.map_eq_some_iff.mp found
      rw [kept] at owned
      exact formed.known oldFound owned
    · exact formed.known found owned
  listed found := by
    rw [formed.listed found, places_modify]
    simp [kept]

/-- An owner without entries is added. -/
theorem push_owner (formed : Listed entries owner owners list) {holder : β}
    (none_listed : list holder = []) : Listed entries owner (owners.push holder) list where
  known found owned := by
    rw [Array.size_push]
    exact Nat.lt_succ_of_lt (formed.known found owned)
  listed := by
    intro o other found
    rw [Array.getElem?_push] at found
    split at found
    · next same =>
      obtain rfl := Option.some.inj found
      rw [none_listed, formed.places_of_unknown (Nat.le_of_eq same.symm)]
    · exact formed.listed found

/-- All entries are changed in other respects. -/
theorem map_entry (formed : Listed entries owner owners list) {change : α → α}
    (kept : ∀ entry, owner (change entry) = owner entry) :
    Listed (entries.map change) owner owners list where
  known := by
    intro i entry o found owned
    rw [Array.getElem?_map] at found
    obtain ⟨old, oldFound, rfl⟩ := Option.map_eq_some_iff.mp found
    rw [kept] at owned
    exact formed.known oldFound owned
  listed found := by
    rw [formed.listed found, places_map]
    simp [kept]

/-- A new owner is added together with its entries. -/
theorem append (formed : Listed entries owner owners list) {added : List α} {holder : β}
    (owned : ∀ entry ∈ added, owner entry = some owners.size)
    (lists : list holder = List.range' entries.size added.length) :
    Listed (entries ++ added) owner (owners.push holder) list where
  known := by
    intro i entry o found owned'
    rw [Array.size_push]
    rw [← Array.getElem?_toList, Array.toList_appendList, List.getElem?_append] at found
    split at found
    · exact Nat.lt_succ_of_lt (formed.known (by simpa using found) owned')
    · rw [owned entry (List.mem_of_getElem? found)] at owned'
      exact Option.some.inj owned' ▸ Nat.lt_succ_self _
  listed := by
    intro o other found
    rw [Array.getElem?_push] at found
    split at found
    · next same =>
      obtain rfl := Option.some.inj found
      rw [places_append_of_all _ _ _ (by simpa [same] using owned),
        formed.places_of_unknown (Nat.le_of_eq same.symm), lists, List.nil_append]
    · next different =>
      rw [formed.listed found, places_append_of_none]
      intro entry member
      simpa [owned entry member] using Ne.symm different

end Listed

end Correlate
