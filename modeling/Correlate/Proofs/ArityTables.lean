/-
Module: Correlate.Proofs.ArityTables
Purpose: What a table of variable arities lists, whatever the order in which it was filled.
Main exports: ArityTable.Ascending, ArityTable.OnlyForm, ArityTable.isPlausible_iff, ArityTable.Lists,
  ArityTable.regroup_of_some, ArityTable.arities?_ext, ArityTable.Reordered, ArityTable.Canonical,
  ArityTable.build_canonical
-/
import Mathlib.Data.List.Sort
import Correlate.Matching.ArityTable
import Correlate.Proofs.Compiled.Contents

namespace Correlate

/-! ### Filters whose test may fail -/

section Filter

variable {α : Type} {test : α → Option Bool} {items kept : List α}

theorem filterAuxM_eq_map (items done : List α) :
    items.filterAuxM test done = (items.filterAuxM test []).map (· ++ done) := by
  induction items generalizing done with
  | nil => rfl
  | cons first rest inductionHypothesis =>
      rw [List.filterAuxM, List.filterAuxM]
      cases test first with
      | none => rfl
      | some keep =>
          simp only [Option.bind_eq_bind, Option.bind_some]
          rw [inductionHypothesis, inductionHypothesis (bif keep then [first] else [])]
          cases keep <;> simp [Function.comp_def]

theorem filterM_cons (first : α) (rest : List α) :
    (first :: rest).filterM test = (test first).bind fun keep =>
      (rest.filterM test).map fun kept => if keep then first :: kept else kept := by
  unfold List.filterM
  rw [List.filterAuxM]
  cases test first with
  | none => rfl
  | some keep =>
      simp only [Option.bind_eq_bind, Option.bind_some]
      rw [filterAuxM_eq_map]
      cases rest.filterAuxM test [] <;> cases keep <;> simp

theorem filterM_eq_none_iff : items.filterM test = none ↔ ∃ item ∈ items, test item = none := by
  induction items with
  | nil => simp [List.filterM, List.filterAuxM]
  | cons first rest inductionHypothesis =>
      rw [filterM_cons, Option.bind_eq_none_iff]
      simp only [Option.map_eq_none_iff, inductionHypothesis, List.exists_mem_cons_iff]
      cases test first <;> simp

/-- Where the test never fails, it is a filter like any other. -/
theorem filter_of_filterM {keep : α → Bool}
    (agrees : ∀ item ∈ items, ∀ answer, test item = some answer → keep item = answer)
    (found : items.filterM test = some kept) : items.filter keep = kept := by
  induction items generalizing kept with
  | nil => exact Option.some.inj found
  | cons first rest inductionHypothesis =>
      rw [filterM_cons, Option.bind_eq_some_iff] at found
      obtain ⟨answer, told, found⟩ := found
      obtain ⟨others, isRest, rfl⟩ := Option.map_eq_some_iff.mp found
      rw [List.filter_cons, agrees first List.mem_cons_self answer told,
        inductionHypothesis (fun item member => agrees item (List.mem_cons_of_mem _ member)) isRest]

end Filter

namespace Matching

/-!
A table is filled entry by entry from three sources, two of which come in no particular order.  What it
lists in the end is told by two sets, the names that have an entry and the arities of each name.  As
the lists are ascending, there is only one table with these sets.
-/

namespace ArityTable

variable {table : ArityTable} {name other : String} {arity : Nat}

/-- The table filled from lists of the entries of the three sources. -/
def fill (fixed pooled configured : List (String × List Nat)) : ArityTable :=
  ((({} : ArityTable).insertAll fixed).insertAll pooled).insertAll configured

theorem build_eq_fill (pool : Compiled.Pool) (extra : List (String × List Nat)) :
    build pool extra = fill platformEntries pool.varargArities.toList extra := rfl

/-! ### Ascending lists -/

/-- Every list of the table is ascending. -/
def Ascending (table : ArityTable) : Prop :=
  ∀ name arities, table.arities? name = some arities → arities.Pairwise (· < ·)

namespace Ascending

theorem empty : ({} : ArityTable).Ascending := by
  intro name arities found
  simp [arities?] at found

theorem insert (ascending : table.Ascending) (name : String) (added : List Nat) :
    (table.insert name added).Ascending := by
  have known : ((table.arities? name).getD []).Pairwise (· < ·) := by
    cases found : table.arities? name with
    | none => exact .nil
    | some arities => exact ascending name arities found
  have extended : (added.foldl (fun known arity => Compiled.insertAscending arity known)
      ((table.arities? name).getD [])).Pairwise (· < ·) := by
    refine List.foldlRecOn added _ known fun arities sorted arity _ => ?_
    exact Compiled.pairwise_insertAscending sorted arity
  intro other arities found
  rw [arities?, ArityTable.insert, Std.TreeMap.getElem?_insert] at found
  split at found
  · exact Option.some.inj found ▸ extended
  · exact ascending other arities found

theorem insertAll (ascending : table.Ascending) (entries : List (String × List Nat)) :
    (table.insertAll entries).Ascending :=
  List.foldlRecOn entries _ ascending fun _ sorted entry _ => sorted.insert entry.1 entry.2

theorem fill (fixed pooled configured : List (String × List Nat)) :
    (ArityTable.fill fixed pooled configured).Ascending :=
  ((empty.insertAll _).insertAll _).insertAll _

theorem build (pool : Compiled.Pool) (extra : List (String × List Nat)) :
    (ArityTable.build pool extra).Ascending :=
  fill _ _ _

end Ascending

/-! ### The two sets of a table -/

/-- The table lists the arity for the method. -/
def Lists (table : ArityTable) (name : String) (arity : Nat) : Prop :=
  ∃ arities, table.arities? name = some arities ∧ arity ∈ arities

/-- One of the entries gives the method the arity. -/
def Gives (entries : List (String × List Nat)) (name : String) (arity : Nat) : Prop :=
  ∃ arities, (name, arities) ∈ entries ∧ arity ∈ arities

theorem gives_cons (entry : String × List Nat) (rest : List (String × List Nat)) :
    Gives (entry :: rest) name arity ↔ name = entry.1 ∧ arity ∈ entry.2 ∨ Gives rest name arity := by
  obtain ⟨first, arities⟩ := entry
  simp [Gives, or_and_right, exists_or, and_assoc]

theorem contains_iff : table.contains name = true ↔ ∃ arities, table.arities? name = some arities := by
  rw [contains, arities?, Std.TreeMap.contains_eq_isSome_getElem?, Option.isSome_iff_exists]

theorem mem_known_iff : arity ∈ (table.arities? name).getD [] ↔ table.Lists name arity := by
  rw [Lists]
  cases table.arities? name <;> simp

theorem contains_empty : ({} : ArityTable).contains name = false :=
  Std.TreeMap.contains_emptyc

theorem not_lists_empty : ¬ ({} : ArityTable).Lists name arity := by
  rintro ⟨arities, found, -⟩
  simp [arities?] at found

theorem contains_insert (table : ArityTable) (name : String) (added : List Nat) (other : String) :
    (table.insert name added).contains other = true ↔
      table.contains other = true ∨ other = name := by
  rw [contains, insert, Std.TreeMap.contains_insert, Bool.or_eq_true, beq_iff_eq,
    Std.LawfulEqCmp.compare_eq_iff_eq, or_comm, @eq_comm _ name, contains]

theorem mem_foldl_insertAscending {added known : List Nat} :
    arity ∈ added.foldl (fun known arity => Compiled.insertAscending arity known) known ↔
      arity ∈ known ∨ arity ∈ added := by
  induction added generalizing known with
  | nil => simp
  | cons first rest inductionHypothesis =>
      rw [List.foldl_cons, inductionHypothesis, Compiled.mem_insertAscending, List.mem_cons]
      tauto

theorem lists_insert (table : ArityTable) (name : String) (added : List Nat) (other : String)
    (arity : Nat) : (table.insert name added).Lists other arity ↔
      table.Lists other arity ∨ other = name ∧ arity ∈ added := by
  by_cases same : other = name
  · subst same
    have found : (table.insert other added).arities? other = some (added.foldl
        (fun known arity => Compiled.insertAscending arity known)
          ((table.arities? other).getD [])) := by
      rw [arities?, insert, Std.TreeMap.getElem?_insert_self]
    rw [← mem_known_iff, found, Option.getD_some, mem_foldl_insertAscending, mem_known_iff]
    simp
  · have found : (table.insert name added).arities? other = table.arities? other := by
      rw [arities?, insert, Std.TreeMap.getElem?_insert, if_neg]
      · rfl
      · rw [Std.LawfulEqCmp.compare_eq_iff_eq]
        exact Ne.symm same
    rw [Lists, found]
    simp [same, Lists]

theorem contains_insertAll (table : ArityTable) (entries : List (String × List Nat)) (name : String) :
    (table.insertAll entries).contains name = true ↔
      table.contains name = true ∨ name ∈ entries.map Prod.fst := by
  induction entries generalizing table with
  | nil => simp [insertAll]
  | cons entry rest inductionHypothesis =>
      have step : table.insertAll (entry :: rest) = (table.insert entry.1 entry.2).insertAll rest := rfl
      rw [step, inductionHypothesis, contains_insert, List.map_cons, List.mem_cons, or_assoc]

theorem lists_insertAll (table : ArityTable) (entries : List (String × List Nat)) (name : String)
    (arity : Nat) : (table.insertAll entries).Lists name arity ↔
      table.Lists name arity ∨ Gives entries name arity := by
  induction entries generalizing table with
  | nil => simp [insertAll, Gives]
  | cons entry rest inductionHypothesis =>
      have step : table.insertAll (entry :: rest) = (table.insert entry.1 entry.2).insertAll rest := rfl
      rw [step, inductionHypothesis, lists_insert, gives_cons, or_assoc]

/-- Ascending tables with the same names and the same arities for each name are the same. -/
theorem arities?_ext {one two : ArityTable} (ascending : one.Ascending) (ascending' : two.Ascending)
    (names : ∀ name, one.contains name = true ↔ two.contains name = true)
    (arities : ∀ name arity, one.Lists name arity ↔ two.Lists name arity) (name : String) :
    one.arities? name = two.arities? name := by
  cases found : one.arities? name with
  | none =>
      cases found' : two.arities? name with
      | none => rfl
      | some listed =>
          obtain ⟨listed', found''⟩ := contains_iff.mp ((names name).mpr (contains_iff.mpr ⟨_, found'⟩))
          exact absurd (found.symm.trans found'') (Option.some_ne_none _).symm
  | some listed =>
      obtain ⟨listed', found'⟩ := contains_iff.mp ((names name).mp (contains_iff.mpr ⟨_, found⟩))
      have same (arity : Nat) : arity ∈ listed ↔ arity ∈ listed' := by
        have both := arities name arity
        rw [← mem_known_iff, ← mem_known_iff, found, found'] at both
        exact both
      rw [found', (ascending name _ found).eq_of_mem_iff (ascending' name _ found') same]

/-! ### Calls that a table makes plausible -/

theorem isOnlyUpTo_iff {arities : List Nat} (ascending : arities.Pairwise (· < ·)) {bound : Nat} :
    isOnlyUpTo arities bound arity = true ↔
      ∀ other, other ∈ arities ∧ other ≤ bound ↔ other = arity := by
  -- No arity is listed twice, so one reached arity is a reached list of one.
  have reached_nodup : (arities.filter (· ≤ bound)).Nodup :=
    (ascending.imp fun smaller => Nat.ne_of_lt smaller).filter _
  have single : arities.filter (· ≤ bound) = [arity] ↔
      ∀ other, other ∈ arities ∧ other ≤ bound ↔ other = arity := by
    rw [← List.perm_singleton, List.perm_ext_iff_of_nodup reached_nodup (List.nodup_singleton _)]
    simp
  rw [isOnlyUpTo, ← single]
  split
  · next only same => simp [same]
  · next several => exact ⟨nofun, fun same => absurd same (several arity)⟩

/-- Among the forms that the fixed arguments reach there is one alone, and it is the compiled one. -/
theorem isPlausible_iff_lists (ascending : table.Ascending) {given taken : Nat} :
    table.isPlausible name taken given = true ↔
      ∀ arity, table.Lists name arity ∧ arity ≤ given + 1 ↔ arity = taken := by
  unfold isPlausible Lists
  cases found : table.arities? name with
  | none => simp
  | some arities =>
      simp only [Option.some.injEq, exists_eq_left']
      exact isOnlyUpTo_iff (ascending name arities found)

/-- Of the forms of a method that `given` arguments may be passed to, at most one of them for the array
of the rest, the one with `taken` parameters is the only one. -/
def OnlyForm (table : ArityTable) (name : String) (given taken : Nat) : Prop :=
  ∃ arities, table.arities? name = some arities ∧
    ∀ arity, arity ∈ arities ∧ arity ≤ given + 1 ↔ arity = taken

theorem isPlausible_iff (ascending : table.Ascending) {given taken : Nat} :
    table.isPlausible name taken given = true ↔ table.OnlyForm name given taken := by
  rw [isPlausible_iff_lists ascending]
  unfold OnlyForm Lists
  cases table.arities? name <;> simp

/-- Which calls are plausible is a matter of the arities alone. -/
theorem isPlausible_eq {one two : ArityTable} (ascending : one.Ascending)
    (ascending' : two.Ascending)
    (same : ∀ name arity, one.Lists name arity ↔ two.Lists name arity) :
    one.isPlausible = two.isPlausible := by
  funext name taken given
  rw [Bool.eq_iff_iff, isPlausible_iff_lists ascending, isPlausible_iff_lists ascending']
  simp only [same]

/-! ### Answers in words -/

theorem nextWord?_eq_some_iff {n next : Nat} :
    nextWord? n = some next ↔ n + 1 < Text.wordLimit ∧ n + 1 = next := by
  rw [nextWord?, Option.ite_none_right_eq_some, Option.some.injEq]

/-- There is an answer where the next number is a word or no arity has to be compared with it, and it
is the answer over all natural numbers. -/
theorem isPlausible?_eq_some_iff {given taken : Nat} {answer : Bool} :
    table.isPlausible? name taken given = some answer ↔
      (given + 1 < Text.wordLimit ∨ ∀ arity, ¬ table.Lists name arity) ∧
        table.isPlausible name taken given = answer := by
  unfold isPlausible? isPlausible Lists
  cases found : table.arities? name with
  | none => simp
  | some arities =>
      cases arities with
      | nil => simp [isOnlyUpTo]
      | cons first rest =>
          have listed : ¬ ∀ arity, ¬ ∃ arities, some (first :: rest) = some arities ∧ arity ∈ arities :=
            fun none_listed => none_listed first ⟨_, rfl, List.mem_cons_self⟩
          simp only [Option.map_eq_some_iff, nextWord?_eq_some_iff, and_assoc, exists_and_left,
            exists_eq_left', or_iff_left listed]

theorem isPlausible?_eq_none_iff {given taken : Nat} :
    table.isPlausible? name taken given = none ↔
      Text.wordLimit ≤ given + 1 ∧ ∃ arity, table.Lists name arity := by
  rw [← Option.not_isSome_iff_eq_none, Option.isSome_iff_exists]
  simp only [isPlausible?_eq_some_iff, exists_and_left, exists_eq', and_true, not_or, Nat.not_lt,
    not_forall, not_not]

theorem isPlausible?_eq {one two : ArityTable} (ascending : one.Ascending)
    (ascending' : two.Ascending)
    (same : ∀ name arity, one.Lists name arity ↔ two.Lists name arity) :
    one.isPlausible? = two.isPlausible? := by
  funext name taken given
  refine Option.ext fun answer => ?_
  rw [isPlausible?_eq_some_iff, isPlausible?_eq_some_iff, isPlausible_eq ascending ascending' same]
  simp only [same]

section Regrouping

variable {pool : Compiled.Pool} {registry : Registry} {method : Compiled.Handle .method} {given : Nat}
  {calls : List (Compiled.Handle .invocation)}

/-- What is regrouped in words is what is regrouped over all natural numbers. -/
theorem regroup_of_some (answered : table.regroup? pool registry method name given = some calls) :
    table.regroup pool registry method name given = calls := by
  refine filter_of_filterM (fun call _ answer told => ?_) answered
  dsimp only at told ⊢
  split at told
  · next passed =>
    obtain rfl := Option.some.inj told
    grind
  · next compared =>
    split at told
    · next same =>
      obtain rfl := Option.some.inj told
      grind
    · next different =>
      have fits := (isPlausible?_eq_some_iff.mp told).2
      grind

/-- There is no answer where an open call of the name has to be compared and the number after that of
the arguments is no word. -/
theorem regroup?_eq_none_iff :
    table.regroup? pool registry method name given = none ↔
      ∃ call ∈ (pool.methodAt method).invocations, registry.isConsumed call = false ∧
        (pool.invocationAt call).name = name ∧ (pool.invocationAt call).arity ≠ given ∧
        table.isPlausible? (pool.invocationAt call).namingId (pool.invocationAt call).arity given =
          none := by
  rw [regroup?, filterM_eq_none_iff]
  refine exists_congr fun call => and_congr_right fun _ => ?_
  dsimp only
  split
  · next passed => grind
  · next compared =>
    split <;> grind

end Regrouping

/-! ### The three sources -/

/-- The same entries in another order, the arities of each in another order as well. -/
def Reordered (entries others : List (String × List Nat)) : Prop :=
  ∃ between, entries.Perm between ∧
    List.Forall₂ (fun one two => one.1 = two.1 ∧ one.2.Perm two.2) between others

namespace Reordered

variable {entries others : List (String × List Nat)}

theorem of_perm (same : entries.Perm others) : Reordered entries others :=
  ⟨others, same, List.forall₂_same.mpr fun _ _ => ⟨rfl, .rfl⟩⟩

theorem mem_names_iff (reordered : Reordered entries others) :
    name ∈ entries.map Prod.fst ↔ name ∈ others.map Prod.fst := by
  obtain ⟨between, same, parts⟩ := reordered
  rw [(same.map Prod.fst).mem_iff]
  clear same
  induction parts with
  | nil => rfl
  | cons both _ inductionHypothesis =>
      rw [List.map_cons, List.map_cons, List.mem_cons, List.mem_cons, both.1, inductionHypothesis]

theorem gives_iff (reordered : Reordered entries others) :
    Gives entries name arity ↔ Gives others name arity := by
  obtain ⟨between, same, parts⟩ := reordered
  have ordered : Gives entries name arity ↔ Gives between name arity := by
    simp only [Gives, same.mem_iff]
  rw [ordered]
  clear same ordered
  induction parts with
  | nil => rfl
  | cons both _ inductionHypothesis =>
      rw [gives_cons, gives_cons, both.1, both.2.mem_iff]
      exact or_congr_right inductionHypothesis

end Reordered

section Sources

variable {pool : Compiled.Pool} {extra : List (String × List Nat)}

/-- One of the sources of a table names the method. -/
def Named (pool : Compiled.Pool) (extra : List (String × List Nat)) (name : String) : Prop :=
  name ∈ platformEntries.map Prod.fst ∨ (∃ method ∈ pool.methods, method.IsVarargsOf pool name) ∨
    name ∈ extra.map Prod.fst

/-- One of the sources of a table gives the method the arity. -/
def Declared (pool : Compiled.Pool) (extra : List (String × List Nat)) (name : String)
    (arity : Nat) : Prop :=
  Gives platformEntries name arity ∨
    (∃ method ∈ pool.methods, method.IsVarargsOf pool name ∧ method.arity = arity) ∨
      Gives extra name arity

theorem contains_fill {fixed pooled configured : List (String × List Nat)} :
    (fill fixed pooled configured).contains name = true ↔
      name ∈ fixed.map Prod.fst ∨ name ∈ pooled.map Prod.fst ∨ name ∈ configured.map Prod.fst := by
  rw [fill, contains_insertAll, contains_insertAll, contains_insertAll, contains_empty]
  simp [or_assoc]

theorem lists_fill {fixed pooled configured : List (String × List Nat)} :
    (fill fixed pooled configured).Lists name arity ↔
      Gives fixed name arity ∨ Gives pooled name arity ∨ Gives configured name arity := by
  rw [fill, lists_insertAll, lists_insertAll, lists_insertAll, or_assoc, or_assoc]
  exact or_iff_right not_lists_empty

/-- However the sources are ordered, the same is listed. -/
theorem arities?_fill_of_reordered {fixed pooled configured fixed' pooled' configured' :
      List (String × List Nat)} (first : Reordered fixed fixed') (second : Reordered pooled pooled')
    (third : Reordered configured configured') (name : String) :
    (fill fixed pooled configured).arities? name = (fill fixed' pooled' configured').arities? name := by
  apply arities?_ext (.fill _ _ _) (.fill _ _ _)
  · intro name
    rw [contains_fill, contains_fill, first.mem_names_iff, second.mem_names_iff,
      third.mem_names_iff]
  · intro name arity
    rw [lists_fill, lists_fill, first.gives_iff, second.gives_iff, third.gives_iff]

/-- The index of a finished pool has an entry for each method of variable arity. -/
theorem mem_pooledNames_iff (built : pool.IsBuilt) :
    name ∈ pool.varargArities.toList.map Prod.fst ↔
      ∃ method ∈ pool.methods, method.IsVarargsOf pool name := by
  obtain ⟨builder, reachable, rfl⟩ := built
  have counted := Compiled.AritiesOf.finish reachable
  rw [Std.TreeMap.map_fst_toList_eq_keys, Std.TreeMap.mem_keys, ← Std.TreeMap.isSome_getElem?_iff_mem,
    Option.isSome_iff_exists]
  constructor
  · rintro ⟨arities, found⟩
    obtain ⟨arity, listed⟩ := List.exists_mem_of_ne_nil _ (counted.ascending_of_found found).2
    obtain ⟨method, member, named, -⟩ :=
      (counted.exists_found_iff name arity).mp ⟨arities, found, listed⟩
    exact ⟨method, Array.mem_toList_iff.mp member, named⟩
  · rintro ⟨method, member, named⟩
    obtain ⟨arities, found, -⟩ := (counted.exists_found_iff name method.arity).mpr
      ⟨method, Array.mem_toList_iff.mpr member, named, rfl⟩
    exact ⟨arities, found⟩

theorem gives_pooled_iff (built : pool.IsBuilt) :
    Gives pool.varargArities.toList name arity ↔
      ∃ method ∈ pool.methods, method.IsVarargsOf pool name ∧ method.arity = arity := by
  obtain ⟨builder, reachable, rfl⟩ := built
  simp only [Gives, Std.TreeMap.mem_toList_iff_getElem?_eq_some,
    (Compiled.AritiesOf.finish reachable).exists_found_iff, Array.mem_toList_iff]

theorem contains_build_iff (built : pool.IsBuilt) :
    (build pool extra).contains name = true ↔ Named pool extra name := by
  rw [build_eq_fill, contains_fill, mem_pooledNames_iff built, Named]

theorem lists_build_iff (built : pool.IsBuilt) :
    (build pool extra).Lists name arity ↔ Declared pool extra name arity := by
  rw [build_eq_fill, lists_fill, gives_pooled_iff built, Declared]

end Sources

/-- What the table of a run lists and makes plausible is told by its three sources as sets. -/
structure Canonical (pool : Compiled.Pool) (extra : List (String × List Nat)) : Prop where
  /-- There is an entry for each method that a source names, and no other. -/
  contains_iff : ∀ name, (build pool extra).contains name = true ↔ Named pool extra name
  /-- An entry lists, ascending, the arities that the sources give the method together. -/
  arities : ∀ name arities, (build pool extra).arities? name = some arities →
    arities.Pairwise (· < ·) ∧ ∀ arity, arity ∈ arities ↔ Declared pool extra name arity
  /-- The entries of the sources and the arities in them may come in any order. -/
  reordered : ∀ fixed pooled configured, Reordered fixed platformEntries →
    Reordered pooled pool.varargArities.toList → Reordered configured extra → ∀ name,
      (fill fixed pooled configured).arities? name = (build pool extra).arities? name
  /-- A call is plausible if the only arity that its fixed arguments reach is that of the compiled
  call. -/
  isPlausible_iff : ∀ name taken given, (build pool extra).isPlausible name taken given = true ↔
    ∀ arity, Declared pool extra name arity ∧ arity ≤ given + 1 ↔ arity = taken
  /-- Sources that give the same arities make the same calls plausible and group calls alike. -/
  determined : ∀ pool' extra', pool'.IsBuilt →
    (∀ name arity, Declared pool extra name arity ↔ Declared pool' extra' name arity) →
      (build pool extra).isPlausible = (build pool' extra').isPlausible ∧
        (build pool extra).isPlausible? = (build pool' extra').isPlausible? ∧
        (build pool extra).regroup = (build pool' extra').regroup ∧
        (build pool extra).regroup? = (build pool' extra').regroup?

theorem build_canonical {pool : Compiled.Pool} (built : pool.IsBuilt)
    (extra : List (String × List Nat)) : Canonical pool extra where
  contains_iff _ := contains_build_iff built
  arities name arities found := by
    refine ⟨Ascending.build pool extra name arities found, fun arity => ?_⟩
    rw [← lists_build_iff built, ← mem_known_iff, found, Option.getD_some]
  reordered _ _ _ := arities?_fill_of_reordered
  isPlausible_iff name taken given := by
    rw [isPlausible_iff_lists (.build pool extra)]
    simp only [lists_build_iff built]
  determined pool' extra' built' same := by
    have listed (name : String) (arity : Nat) :
        (build pool extra).Lists name arity ↔ (build pool' extra').Lists name arity := by
      rw [lists_build_iff built, lists_build_iff built', same]
    have alike := isPlausible_eq (.build _ _) (.build _ _) listed
    have alike? := isPlausible?_eq (.build _ _) (.build _ _) listed
    refine ⟨alike, alike?, ?_, ?_⟩
    · unfold regroup
      rw [alike]
    · unfold regroup?
      rw [alike?]

/-- A type with two methods of variable arity and one of the same name that is not. -/
def logPool : Compiled.Pool :=
  let method (params : List String) : Compiled.Signature :=
    { name := "log", params, returnType := "void" }
  let steps : List Compiled.Step :=
    [.type "p.Log", .method ⟨0⟩ (method ["java.lang.String", "java.lang.Object[]"]) [.varargs],
      .method ⟨0⟩ (method ["int", "int", "int"]) [],
      .method ⟨0⟩ (method ["java.lang.Object[]"]) [.varargs]]
  (({} : Compiled.Builder).performAll steps).1.finish.pool

theorem build_canonical_log : logPool.IsBuilt ∧ Canonical logPool [("p.Log.log", [4, 2])] ∧
    (build logPool [("p.Log.log", [4, 2])]).arities? "p.Log.log" = some [1, 2, 4] ∧
    (fill platformEntries.reverse logPool.varargArities.toList.reverse
      [("p.Log.log", [2, 4])]).arities? "p.Log.log" = some [1, 2, 4] ∧
    (build logPool [("p.Log.log", [4, 2])]).isPlausible "p.Log.log" 1 0 = true := by
  have built : logPool.IsBuilt := by
    refine ⟨_, Compiled.Builder.Reachable.empty.performAll ?admitted, rfl⟩
    exact ⟨trivial, Nat.zero_lt_one, Nat.zero_lt_one, Nat.zero_lt_one, trivial⟩
  have canonical := build_canonical built [("p.Log.log", [4, 2])]
  have listed : (build logPool [("p.Log.log", [4, 2])]).arities? "p.Log.log" = some [1, 2, 4] := by
    decide +kernel
  have swapped : Reordered [("p.Log.log", [2, 4])] [("p.Log.log", [4, 2])] :=
    ⟨_, .rfl, .cons ⟨rfl, .swap 4 2 []⟩ .nil⟩
  refine ⟨built, canonical, listed, ?_, by decide +kernel⟩
  rw [canonical.reordered _ _ _ (.of_perm (List.reverse_perm _)) (.of_perm (List.reverse_perm _))
    swapped, listed]

end ArityTable

end Matching

end Correlate
