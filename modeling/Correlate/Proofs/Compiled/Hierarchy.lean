/-
Module: Correlate.Proofs.Compiled.Hierarchy
Purpose: Which declaration the walk up the hierarchy finds.
Main exports: Pool.IsPath, Pool.Reaches, Pool.preorder, Pool.tour, Pool.CutsOff,
  targetId_preorder, targetId_of_path
-/
import Mathlib.Data.List.Chain
import Mathlib.Data.List.Infix
import Mathlib.Data.List.Nodup
import Mathlib.Data.List.Perm.Subperm
import Correlate.Compiled.Hierarchy
import Correlate.Compiled.Script

namespace Correlate.Compiled

/-!
The walk keeps the stops that it has still to make in one list and looks at each when its turn comes.
`preorder` is the search that it stands for: enter a type, then everything above it, then go on with
what is beside it.  `tour` lists the stops of the walk where nothing ends it early.  The two agree as
long as no path is longer than the limit.  A longer path can hide types that are near: the walk may
enter a type at the end of a long path first, and then neither goes on from there nor comes back.
-/

namespace Pool

/-! ### The hierarchy -/

/-- A type with compiled code that is not the root of all types. -/
def IsEnterable (pool : Pool) (name : String) : Prop :=
  name ≠ rootType ∧ (pool.typeNamed? name).isSome = true

/-- The names of the super types of a type.  Nothing is known of a type without compiled code. -/
def superTypesOf (pool : Pool) (name : String) : List String :=
  ((pool.typeNamed? name).map fun type => (pool.typeAt type).superTypes).getD []

/-- Enterable types, each but the first one a super type of the one before it. -/
structure IsPath (pool : Pool) (names : List String) : Prop where
  enterable : ∀ name ∈ names, pool.IsEnterable name
  upward : names.IsChain fun lower upper => upper ∈ pool.superTypesOf lower

/-- A path leads from one type to another. -/
def Reaches (pool : Pool) (target name : String) : Prop :=
  ∃ names, pool.IsPath names ∧ names.head? = some target ∧ names.getLast? = some name

/-- The first method of a type that has the given signature. -/
def declaredIn? (pool : Pool) (signature : Signature) (name : String) :
    Option (Handle .method) :=
  (pool.typeNamed? name).bind fun type => pool.findMethod? type signature

/-- A type of this name has a method of this signature. -/
def Declares (pool : Pool) (name : String) (signature : Signature) (method : Handle .method) :
    Prop :=
  ∃ type, pool.typeNamed? name = some type ∧ method ∈ (pool.typeAt type).methods ∧
    (pool.methodAt method).signature = signature

variable {pool : Pool} {signature : Signature} {entered : List String}

theorem superTypesOf_eq {name : String} {type : Handle .type}
    (known : pool.typeNamed? name = some type) :
    pool.superTypesOf name = (pool.typeAt type).superTypes := by
  rw [superTypesOf, known]
  rfl

theorem declares_of_declaredIn {name : String} {method : Handle .method}
    (found : pool.declaredIn? signature name = some method) :
    pool.Declares name signature method := by
  obtain ⟨type, known, isMethod⟩ := Option.bind_eq_some_iff.mp found
  have same := List.find?_some isMethod
  exact ⟨type, known, List.mem_of_find?_eq_some isMethod, of_decide_eq_true same⟩

theorem declaredIn_eq_none_iff {name : String} :
    pool.declaredIn? signature name = none ↔ ∀ method, ¬ pool.Declares name signature method := by
  constructor
  · rintro missing method ⟨type, known, listed, same⟩
    rw [declaredIn?, known, Option.bind_some, findMethod?] at missing
    exact absurd (decide_eq_true same) (List.find?_eq_none.mp missing method listed)
  · intro missing
    rw [Option.eq_none_iff_forall_ne_some]
    exact fun method found => missing method (declares_of_declaredIn found)

/-! ### The search in preorder -/

theorem unentered_lt_of_mem {later : List String} {name : String} {type : Handle .type}
    (known : pool.typeNamed? name = some type) (fresh : name ∉ entered)
    (grown : ∀ other ∈ name :: entered, other ∈ later) :
    (pool.unentered later).length < (pool.unentered entered).length := by
  refine Nat.lt_of_le_of_lt (List.Sublist.length_le ?_) (unentered_lt known fresh)
  refine List.monotone_filter_right _ fun other absent => ?_
  simp only [decide_eq_true_eq] at absent ⊢
  exact fun member => absent (grown other member)

/-- The types that a search enters from some types on, in this order: each one with everything above
it before the next one, and none that was entered before. -/
def preorder (pool : Pool) (entered : List String) : List String → List String
  | [] => []
  | name :: rest =>
      if _passed : name = rootType ∨ name ∈ entered then preorder pool entered rest
      else
        match _known : pool.typeNamed? name with
        | none => preorder pool entered rest
        | some type =>
            let above := preorder pool (entered ++ [name]) (pool.typeAt type).superTypes
            name :: above ++ preorder pool (entered ++ name :: above) rest
termination_by names => ((pool.unentered entered).length, names.length)
decreasing_by
  · exact Prod.Lex.right _ (Nat.lt_succ_self _)
  · exact Prod.Lex.right _ (Nat.lt_succ_self _)
  · refine Prod.Lex.left _ _ (unentered_lt_of_mem _known (fun member => _passed (.inr member)) ?_)
    simp [or_comm]
  · refine Prod.Lex.left _ _ (unentered_lt_of_mem _known (fun member => _passed (.inr member)) ?_)
    simp +contextual

theorem preorder_skipped {name : String} (rest : List String)
    (skipped : name ∈ entered ∨ ¬ pool.IsEnterable name) :
    pool.preorder entered (name :: rest) = pool.preorder entered rest := by
  rw [preorder]
  split
  · rfl
  · next fresh =>
    split
    · rfl
    · next known =>
      obtain ⟨notRoot, notEntered⟩ := not_or.mp fresh
      exact absurd ⟨notRoot, known ▸ rfl⟩ (skipped.resolve_left notEntered)

theorem preorder_entered {name : String} (rest : List String) (fresh : name ∉ entered)
    (enterable : pool.IsEnterable name) :
    pool.preorder entered (name :: rest) =
      name :: pool.preorder (entered ++ [name]) (pool.superTypesOf name) ++
        pool.preorder
          (entered ++ name :: pool.preorder (entered ++ [name]) (pool.superTypesOf name)) rest := by
  rw [preorder, dif_neg (not_or.mpr ⟨enterable.1, fresh⟩)]
  split
  · next unknown => exact absurd (unknown ▸ enterable.2) nofun
  · next known => rw [superTypesOf_eq known]

/-- What is beside comes after everything above what is before it. -/
theorem preorder_append (pool : Pool) (entered first second : List String) :
    pool.preorder entered (first ++ second) =
      pool.preorder entered first ++
        pool.preorder (entered ++ pool.preorder entered first) second := by
  fun_induction preorder pool entered first with
  | case1 => rw [List.nil_append, List.nil_append, List.append_nil]
  | case2 entered name rest passed inductionHypothesis =>
      have skipped : name ∈ entered ∨ ¬ pool.IsEnterable name :=
        passed.symm.imp_right fun isRoot enterable => enterable.1 isRoot
      rw [List.cons_append, preorder_skipped _ skipped, inductionHypothesis]
  | case3 entered name rest passed unknown inductionHypothesis =>
      have skipped : ¬ pool.IsEnterable name := fun enterable =>
        absurd (unknown ▸ enterable.2) nofun
      rw [List.cons_append, preorder_skipped _ (.inr skipped), inductionHypothesis]
  | case4 entered name rest passed type known above _ inductionHypothesis =>
      obtain ⟨notRoot, fresh⟩ := not_or.mp passed
      have enterable : pool.IsEnterable name := ⟨notRoot, known ▸ rfl⟩
      rw [List.cons_append, preorder_entered _ fresh enterable, superTypesOf_eq known,
        inductionHypothesis]
      simp only [above, List.cons_append, List.append_assoc]

/-! ### The stops of the walk -/

/-- The stops of a walk that goes on after every type it enters. -/
def tour (pool : Pool) (entered : List String) : List Stop → List Stop
  | [] => []
  | stop :: rest =>
      if _passed : passesBy entered stop then tour pool entered rest
      else
        match _known : pool.typeNamed? stop.1 with
        | none => tour pool entered rest
        | some type => stop :: tour pool (stop.1 :: entered) (pool.stopsAbove type stop.2 ++ rest)
termination_by stops => ((pool.unentered entered).length, stops.length)
decreasing_by
  · exact Prod.Lex.right _ (Nat.lt_succ_self _)
  · exact Prod.Lex.right _ (Nat.lt_succ_self _)
  · refine Prod.Lex.left _ _ (unentered_lt _known fun member => _passed ?_)
    simp [passesBy, member]

/-- The stops of a walk from a type. -/
abbrev tourFrom (pool : Pool) (target : String) : List Stop :=
  pool.tour [] [(target, 0)]

/-- The walk ends at the first stop of its tour where the signature is declared. -/
theorem walk_eq_tour (pool : Pool) (signature : Signature) (entered : List String)
    (stops : List Stop) :
    pool.walk signature entered stops =
      (pool.tour entered stops).findSome? fun stop => pool.declaredIn? signature stop.1 := by
  fun_induction tour pool entered stops with
  | case1 => rw [walk]; rfl
  | case2 entered stop rest passed inductionHypothesis =>
      rw [walk, dif_pos passed, inductionHypothesis]
  | case3 entered stop rest passed unknown inductionHypothesis =>
      rw [walk, dif_neg passed]
      split
      · exact inductionHypothesis
      · next known => cases unknown.symm.trans known
  | case4 entered stop rest passed type known inductionHypothesis =>
      have declared : pool.declaredIn? signature stop.1 = pool.findMethod? type signature := by
        rw [declaredIn?, known, Option.bind_some]
      rw [walk, dif_neg passed, List.findSome?_cons, declared]
      split
      · next unknown => cases known.symm.trans unknown
      · next other isOther =>
        obtain rfl := Option.some.inj (known.symm.trans isOther)
        cases pool.findMethod? type signature with
        | some method => rfl
        | none => exact inductionHypothesis

/-- A stop at which the walk does not enter a type. -/
theorem tour_skipped {stop : Stop} (rest : List Stop)
    (skipped : stop.1 ∈ entered ∨ maxHierarchyDepth < stop.2 ∨ ¬ pool.IsEnterable stop.1) :
    pool.tour entered (stop :: rest) = pool.tour entered rest := by
  rw [tour]
  split
  · rfl
  · next fresh =>
    split
    · rfl
    · next known =>
      have open_ : stop.1 ≠ rootType ∧ ¬ maxHierarchyDepth < stop.2 ∧ stop.1 ∉ entered := by
        simpa [passesBy, not_or, and_assoc] using fresh
      rcases skipped with member | far | notEnterable
      · exact absurd member open_.2.2
      · exact absurd far open_.2.1
      · exact absurd ⟨open_.1, known ▸ rfl⟩ notEnterable

theorem tour_entered {stop : Stop} (rest : List Stop) (fresh : stop.1 ∉ entered)
    (near : stop.2 ≤ maxHierarchyDepth) (enterable : pool.IsEnterable stop.1) :
    pool.tour entered (stop :: rest) =
      stop :: pool.tour (stop.1 :: entered)
        (((pool.superTypesOf stop.1).map fun name => (name, stop.2 + 1)) ++ rest) := by
  have fresh : ¬ passesBy entered stop = true := by
    simp [passesBy, enterable.1, fresh, Nat.not_lt_of_le near]
  rw [tour, dif_neg fresh]
  split
  · next unknown => exact absurd (unknown ▸ enterable.2) nofun
  · next known => rw [stopsAbove, superTypesOf_eq known]

/-- What a walk does at each stop is one of two things. -/
theorem tour_induction {motive : List String → List Stop → Prop} (done : ∀ entered, motive entered [])
    (skip : ∀ entered stop rest,
      stop.1 ∈ entered ∨ maxHierarchyDepth < stop.2 ∨ ¬ pool.IsEnterable stop.1 →
        motive entered rest → motive entered (stop :: rest))
    (enter : ∀ entered stop rest, stop.1 ∉ entered → stop.2 ≤ maxHierarchyDepth →
      pool.IsEnterable stop.1 →
        motive (stop.1 :: entered)
          (((pool.superTypesOf stop.1).map fun name => (name, stop.2 + 1)) ++ rest) →
        motive entered (stop :: rest))
    (entered : List String) (stops : List Stop) : motive entered stops := by
  fun_induction tour pool entered stops with
  | case1 => exact done _
  | case2 entered stop rest passed inductionHypothesis =>
      refine skip entered stop rest ?_ inductionHypothesis
      have reasons : (stop.1 = rootType ∨ maxHierarchyDepth < stop.2) ∨ stop.1 ∈ entered := by
        simpa [passesBy] using passed
      rcases reasons with (isRoot | far) | member
      · exact .inr (.inr fun enterable => enterable.1 isRoot)
      · exact .inr (.inl far)
      · exact .inl member
  | case3 entered stop rest passed unknown inductionHypothesis =>
      refine skip entered stop rest (.inr (.inr fun enterable => ?_)) inductionHypothesis
      exact absurd (unknown ▸ enterable.2) nofun
  | case4 entered stop rest passed type known inductionHypothesis =>
      have fresh : stop.1 ≠ rootType ∧ ¬ maxHierarchyDepth < stop.2 ∧ stop.1 ∉ entered := by
        simpa [passesBy, not_or, and_assoc] using passed
      rw [stopsAbove, ← superTypesOf_eq known] at inductionHypothesis
      exact enter entered stop rest fresh.2.2 (Nat.le_of_not_lt fresh.2.1) ⟨fresh.1, known ▸ rfl⟩
        inductionHypothesis

/-! ### Paths to the stops -/

/-- A path without repetitions from one type to another. -/
structure IsRoute (pool : Pool) (target name : String) (names : List String) : Prop extends
    pool.IsPath names where
  nodup : names.Nodup
  starts : names.head? = some target
  ends : names.getLast? = some name

/-- A path without repetitions that has so many steps leads from one type to another. -/
def ReachesIn (pool : Pool) (target name : String) (steps : Nat) : Prop :=
  ∃ names, pool.IsRoute target name names ∧ names.length = steps + 1

/-- No path without repetitions is longer than the walk may go. -/
def IsShallow (pool : Pool) (target : String) : Prop :=
  ∀ name steps, pool.ReachesIn target name steps → steps ≤ maxHierarchyDepth

theorem IsRoute.single {name : String} (enterable : pool.IsEnterable name) :
    pool.IsRoute name name [name] where
  enterable := List.forall_mem_singleton.mpr enterable
  upward := List.isChain_singleton name
  nodup := List.nodup_singleton name
  starts := rfl
  ends := rfl

theorem IsRoute.snoc {target lower upper : String} {names : List String}
    (route : pool.IsRoute target lower names) (listed : upper ∈ pool.superTypesOf lower)
    (enterable : pool.IsEnterable upper) (fresh : upper ∉ names) :
    pool.IsRoute target upper (names ++ [upper]) where
  enterable name member := by
    rcases (List.mem_append.mp member).imp_right List.mem_singleton.mp with before | rfl
    · exact route.enterable name before
    · exact enterable
  upward := by
    refine List.isChain_append.mpr ⟨route.upward, List.isChain_singleton upper, ?_⟩
    rintro other isLast next isFirst
    obtain rfl := Option.some.inj (route.ends.symm.trans isLast)
    obtain rfl := Option.some.inj isFirst
    exact listed
  nodup := by
    refine List.nodup_append.mpr ⟨route.nodup, List.nodup_singleton upper, ?_⟩
    rintro name member other isUpper rfl
    exact fresh (List.mem_singleton.mp isUpper ▸ member)
  starts := by rw [List.head?_append, route.starts, Option.some_or]
  ends := List.getLast?_concat

theorem IsRoute.reaches {target name : String} {names : List String}
    (route : pool.IsRoute target name names) : pool.Reaches target name :=
  ⟨names, route.toIsPath, route.starts, route.ends⟩

/-- How a stop comes to be on the list: it is the start, or the last type of a route through entered
types names it as a super type. -/
inductive LeadsTo (pool : Pool) (target : String) (entered : List String) : Stop → Prop where
  | start : LeadsTo pool target entered (target, 0)
  | above {names : List String} {lower upper : String} (route : pool.IsRoute target lower names)
      (inside : ∀ name ∈ names, name ∈ entered) (listed : upper ∈ pool.superTypesOf lower) :
      LeadsTo pool target entered (upper, names.length)

variable {target : String}

/-- The route to a type that is about to be entered. -/
theorem LeadsTo.exists_route {stop : Stop} (leads : pool.LeadsTo target entered stop)
    (fresh : stop.1 ∉ entered) (enterable : pool.IsEnterable stop.1) :
    ∃ names, pool.IsRoute target stop.1 names ∧ (∀ name ∈ names, name ∈ stop.1 :: entered) ∧
      names.length = stop.2 + 1 := by
  cases leads with
  | start => exact ⟨[target], .single enterable, fun _ => List.mem_append_left _, rfl⟩
  | @above names lower upper route inside listed =>
      have new : upper ∉ names := fun member => fresh (inside upper member)
      refine ⟨names ++ [upper], route.snoc listed enterable new, fun name member => ?_,
        List.length_append⟩
      rcases (List.mem_append.mp member).imp_right List.mem_singleton.mp with before | rfl
      · exact List.mem_cons_of_mem _ (inside name before)
      · exact List.mem_cons_self

/-- What is on the list after a type was entered. -/
theorem leadsTo_of_entered {stop : Stop} {rest : List Stop}
    (leads : ∀ next ∈ stop :: rest, pool.LeadsTo target entered next)
    (fresh : stop.1 ∉ entered) (enterable : pool.IsEnterable stop.1) :
    ∀ next ∈ ((pool.superTypesOf stop.1).map fun name => (name, stop.2 + 1)) ++ rest,
      pool.LeadsTo target (stop.1 :: entered) next := by
  obtain ⟨leadsFirst, leadsRest⟩ := List.forall_mem_cons.mp leads
  intro next member
  rcases List.mem_append.mp member with isAbove | isBeside
  · obtain ⟨name, listed, rfl⟩ := List.mem_map.mp isAbove
    obtain ⟨names, route, inside, length⟩ := leadsFirst.exists_route fresh enterable
    exact length ▸ .above route inside listed
  · cases leadsRest next isBeside with
    | start => exact .start
    | above route inside listed =>
        exact .above route (fun name member => List.mem_cons_of_mem _ (inside name member)) listed

/-- A type that is entered now or was entered before the rest, is entered before or in all. -/
theorem mem_shift {first name : String} {others : List String}
    (either : name ∈ first :: entered ∨ name ∈ others) : name ∈ entered ∨ name ∈ first :: others := by
  simp only [List.mem_cons] at either ⊢
  tauto

/-- Every type is entered at the end of a route through entered types that is not too long. -/
theorem route_of_toured (entered : List String) (stops : List Stop)
    (leads : ∀ stop ∈ stops, pool.LeadsTo target entered stop) :
    ∀ stop ∈ pool.tour entered stops, stop.2 ≤ maxHierarchyDepth ∧
      ∃ names, pool.IsRoute target stop.1 names ∧
        (∀ name ∈ names, name ∈ entered ∨ name ∈ (pool.tour entered stops).map Prod.fst) ∧
        names.length = stop.2 + 1 := by
  induction entered, stops using pool.tour_induction with
  | done entered =>
      rw [tour]
      exact nofun
  | skip entered stop rest skipped inductionHypothesis =>
      rw [tour_skipped rest skipped]
      exact inductionHypothesis (List.forall_mem_cons.mp leads).2
  | enter entered stop rest fresh near enterable inductionHypothesis =>
      rw [tour_entered rest fresh near enterable, List.map_cons]
      refine List.forall_mem_cons.mpr ⟨⟨near, ?_⟩, fun next member => ?_⟩
      · obtain ⟨names, route, inside, length⟩ :=
          (leads stop List.mem_cons_self).exists_route fresh enterable
        exact ⟨names, route, fun name member => mem_shift (.inl (inside name member)), length⟩
      · obtain ⟨nextNear, names, route, inside, length⟩ :=
          inductionHypothesis (leadsTo_of_entered leads fresh enterable) next member
        exact ⟨nextNear, names, route, fun name member => mem_shift (inside name member), length⟩

/-- Every enterable stop that is not too far is entered sooner or later, and so is every super type of
what is entered before the limit. -/
theorem tour_covers (entered : List String) (stops : List Stop) :
    let names := (pool.tour entered stops).map Prod.fst
    (∀ stop ∈ stops, pool.IsEnterable stop.1 → stop.2 ≤ maxHierarchyDepth →
        stop.1 ∈ entered ∨ stop.1 ∈ names) ∧
      ∀ stop ∈ pool.tour entered stops, stop.2 < maxHierarchyDepth →
        ∀ upper ∈ pool.superTypesOf stop.1, pool.IsEnterable upper →
          upper ∈ entered ∨ upper ∈ names := by
  induction entered, stops using pool.tour_induction with
  | done entered =>
      rw [tour]
      exact ⟨nofun, nofun⟩
  | skip entered stop rest skipped inductionHypothesis =>
      rw [tour_skipped rest skipped]
      refine ⟨List.forall_mem_cons.mpr ⟨fun enterable near => ?_, inductionHypothesis.1⟩,
        inductionHypothesis.2⟩
      rcases skipped with member | far | notEnterable
      · exact .inl member
      · exact absurd near (Nat.not_le_of_lt far)
      · exact absurd enterable notEnterable
  | enter entered stop rest fresh near enterable inductionHypothesis =>
      obtain ⟨listed, closed⟩ := inductionHypothesis
      rw [tour_entered rest fresh near enterable, List.map_cons]
      dsimp only
      refine ⟨List.forall_mem_cons.mpr ⟨fun _ _ => .inr List.mem_cons_self, ?_⟩,
        List.forall_mem_cons.mpr ⟨?_, ?_⟩⟩
      · exact fun next member isEnterable isNear =>
          mem_shift (listed next (List.mem_append_right _ member) isEnterable isNear)
      · intro below upper isAbove isEnterable
        refine mem_shift (listed (upper, stop.2 + 1) (List.mem_append_left _ ?_) isEnterable below)
        exact List.mem_map_of_mem isAbove
      · exact fun next member below upper isAbove isEnterable =>
          mem_shift (closed next member below upper isAbove isEnterable)

/-- Where no path is too long, the walk enters the types in preorder. -/
theorem map_fst_tour (shallow : pool.IsShallow target) (entered : List String) (stops : List Stop)
    (leads : ∀ stop ∈ stops, pool.LeadsTo target entered stop) {seen : List String}
    (same : ∀ name, name ∈ entered ↔ name ∈ seen) :
    (pool.tour entered stops).map Prod.fst = pool.preorder seen (stops.map Prod.fst) := by
  induction entered, stops using pool.tour_induction generalizing seen with
  | done entered =>
      rw [tour, List.map_nil, preorder]
  | skip entered stop rest skipped inductionHypothesis =>
      have skippedToo : stop.1 ∈ seen ∨ ¬ pool.IsEnterable stop.1 := by
        by_contra open_
        obtain ⟨fresh, enterable⟩ := not_or.mp open_
        have enterable := not_not.mp enterable
        rw [← same] at fresh
        obtain ⟨names, route, _, length⟩ :=
          (leads stop List.mem_cons_self).exists_route fresh enterable
        have near := shallow _ _ ⟨names, route, length⟩
        rcases skipped with member | far | notEnterable
        · exact fresh member
        · exact absurd near (Nat.not_le_of_lt far)
        · exact notEnterable enterable
      rw [tour_skipped rest skipped, List.map_cons, preorder_skipped _ skippedToo]
      exact inductionHypothesis (List.forall_mem_cons.mp leads).2 same
  | enter entered stop rest fresh near enterable inductionHypothesis =>
      have sameLater (name : String) : name ∈ stop.1 :: entered ↔ name ∈ seen ++ [stop.1] := by
        rw [List.mem_cons, List.mem_append, List.mem_singleton, same, or_comm]
      rw [tour_entered rest fresh near enterable, List.map_cons, List.map_cons,
        preorder_entered _ ((same _).not.mp fresh) enterable,
        inductionHypothesis (leadsTo_of_entered leads fresh enterable) sameLater, List.map_append,
        preorder_append, List.map_map]
      -- What is above comes first, and what is beside knows what was entered above.
      simp [Function.comp_def]

/-! ### What a whole walk comes to -/

theorem leadsTo_start (pool : Pool) (target : String) :
    ∀ stop ∈ [(target, 0)], pool.LeadsTo target [] stop :=
  List.forall_mem_singleton.mpr .start

/-- A type of a path is entered at the greatest distance, at the end of another path, and the walk does
not enter the next one. -/
def CutsOff (pool : Pool) (target : String) (names : List String) : Prop :=
  ∃ lower upper, [lower, upper] <:+: names ∧
    pool.ReachesIn target lower maxHierarchyDepth ∧
    (lower, maxHierarchyDepth) ∈ pool.tourFrom target ∧
    ∀ stop ∈ pool.tourFrom target, stop.1 ≠ upper

/-- The walk enters all types of a path that it does not cut off. -/
theorem toured_of_path {names : List String} (path : pool.IsPath names)
    (starts : names.head? = some target) :
    (∀ name ∈ names, ∃ stop ∈ pool.tourFrom target, stop.1 = name) ∨ pool.CutsOff target names := by
  obtain ⟨listed, closed⟩ := pool.tour_covers [] [(target, 0)]
  have isEntered {name : String}
      (either : name ∈ [] ∨ name ∈ (pool.tourFrom target).map Prod.fst) :
      ∃ stop ∈ pool.tourFrom target, stop.1 = name :=
    List.mem_map.mp (either.resolve_left List.not_mem_nil)
  obtain ⟨rest, rfl⟩ : ∃ rest, names = target :: rest := List.head?_eq_some_iff.mp starts
  have first : ∃ stop ∈ pool.tourFrom target, stop.1 = target :=
    isEntered (listed _ (List.mem_singleton_self _) (path.enterable target List.mem_cons_self)
      (Nat.zero_le _))
  clear starts
  -- Up the path: the first type that is not entered comes after one at the greatest distance.
  suffices climbs : ∀ start rest, pool.IsPath (start :: rest) →
      (∃ stop ∈ pool.tourFrom target, stop.1 = start) →
      (∀ name ∈ start :: rest, ∃ stop ∈ pool.tourFrom target, stop.1 = name) ∨
        pool.CutsOff target (start :: rest) from climbs target rest path first
  intro start rest path found
  induction rest generalizing start with
  | nil => exact .inl (List.forall_mem_singleton.mpr found)
  | cons upper rest inductionHypothesis =>
      obtain ⟨isAbove, upward⟩ := List.isChain_cons_cons.mp path.upward
      have rest_path : pool.IsPath (upper :: rest) :=
        ⟨fun name member => path.enterable name (List.mem_cons_of_mem _ member), upward⟩
      by_cases next : ∃ stop ∈ pool.tourFrom target, stop.1 = upper
      · rcases inductionHypothesis upper rest_path next with all | cut
        · exact .inl (List.forall_mem_cons.mpr ⟨found, all⟩)
        · obtain ⟨lower, higher, within, rest⟩ := cut
          exact .inr ⟨lower, higher, within.trans (List.suffix_cons _ _).isInfix, rest⟩
      · obtain ⟨⟨lower, depth⟩, member, rfl⟩ := found
        obtain ⟨near, names, route, _, length⟩ :=
          route_of_toured [] _ (pool.leadsTo_start target) _ member
        have far : depth = maxHierarchyDepth := by
          refine Nat.le_antisymm near (Nat.le_of_not_lt fun below => next (isEntered ?_))
          exact closed _ member below upper isAbove (rest_path.enterable upper List.mem_cons_self)
        subst far
        refine .inr ⟨lower, upper, (List.prefix_append [lower, upper] rest).isInfix,
          ⟨names, route, length⟩, member, ?_⟩
        exact fun stop isStop same => next ⟨stop, isStop, same⟩

/-- Where no path is too long, the search in preorder enters just the types that paths lead to. -/
theorem mem_preorder_iff (shallow : pool.IsShallow target) {name : String} :
    name ∈ pool.preorder [] [target] ↔ pool.Reaches target name := by
  have toured := map_fst_tour shallow [] _ (pool.leadsTo_start target) fun _ => Iff.rfl
  rw [← List.map_singleton (f := Prod.fst) (a := (target, 0)), ← toured, List.mem_map]
  constructor
  · rintro ⟨stop, member, rfl⟩
    obtain ⟨_, names, route, _⟩ := route_of_toured [] _ (pool.leadsTo_start target) stop member
    exact route.reaches
  · rintro ⟨names, path, starts, ends⟩
    rcases toured_of_path path starts with all | ⟨lower, upper, within, _, far, missing⟩
    · exact all name (List.mem_of_getLast? ends)
    · exfalso
      obtain ⟨_, names, route, inside, length⟩ :=
        route_of_toured [] _ (pool.leadsTo_start target) _ far
      have fresh : upper ∉ names := by
        intro member
        obtain ⟨stop, isStop, same⟩ :=
          List.mem_map.mp ((inside upper member).resolve_left List.not_mem_nil)
        exact missing stop isStop same
      have isAbove : upper ∈ pool.superTypesOf lower := by
        have link := List.IsChain.infix path.upward within
        exact (List.isChain_cons_cons.mp link).1
      have enterable := path.enterable upper (within.subset (by simp))
      have longer := shallow upper _
        ⟨names ++ [upper], route.snoc isAbove enterable fresh, List.length_append⟩
      omega

/-- The walk finds what the search in preorder finds first. -/
theorem declaration_preorder (shallow : pool.IsShallow target) :
    pool.declaration? target signature =
      (pool.preorder [] [target]).findSome? (pool.declaredIn? signature) := by
  have toured := map_fst_tour shallow [] _ (pool.leadsTo_start target) fun _ => Iff.rfl
  rw [List.map_singleton] at toured
  rw [declaration?, walk_eq_tour, ← toured, List.findSome?_map]
  rfl

/-- A method that the walk finds is declared by a type that a path leads to. -/
theorem declares_of_declaration {method : Handle .method}
    (found : pool.declaration? target signature = some method) :
    ∃ name, pool.Reaches target name ∧ pool.Declares name signature method := by
  rw [declaration?, walk_eq_tour] at found
  obtain ⟨stop, toured, declared⟩ := List.exists_of_findSome?_eq_some found
  obtain ⟨_, names, route, _⟩ := route_of_toured [] _ (pool.leadsTo_start target) stop toured
  exact ⟨stop.1, route.reaches, declares_of_declaredIn declared⟩

/-- The id of the method that declares what a call reaches, or the id that the call itself gives. -/
def idOrDescriptor (pool : Pool) (call : Invocation) (found : Option (Handle .method)) : String :=
  (found.map fun method => (pool.methodAt method).id).getD (call.signature.idIn call.targetType)

theorem targetId_eq (pool : Pool) (call : Invocation) :
    pool.targetId call =
      pool.idOrDescriptor call (pool.declaration? call.targetType call.signature) := by
  rw [targetId, idOrDescriptor]
  cases pool.declaration? call.targetType call.signature <;> rfl

/-- Only so many types can stand on a path without repetitions. -/
theorem isShallow_of_length (small : pool.typeIndex.keys.length ≤ maxHierarchyDepth + 1) :
    pool.IsShallow target := by
  rintro name steps ⟨names, route, length⟩
  have inside : names ⊆ pool.typeIndex.keys := by
    intro other member
    rw [Std.TreeMap.mem_keys, Std.TreeMap.mem_iff_isSome_getElem?]
    exact (route.enterable other member).2
  have fits := (List.subperm_of_subset route.nodup inside).length_le
  omega

end Pool

/-! ### The target of a call -/

/-- A call reaches a method of its signature that some type above the named one declares, or keeps the
id that it gives itself.  Where no path is too long, the declaring type is the first one in preorder,
and the call keeps its own id just where no type above declares its signature. -/
theorem targetId_preorder (pool : Pool) (call : Invocation) :
    (pool.targetId call = call.signature.idIn call.targetType ∨
      ∃ name method, pool.Reaches call.targetType name ∧
        pool.Declares name call.signature method ∧
        pool.targetId call = (pool.methodAt method).id) ∧
    (pool.IsShallow call.targetType →
      let found := (pool.preorder [] [call.targetType]).findSome? (pool.declaredIn? call.signature)
      pool.targetId call = pool.idOrDescriptor call found ∧
        (found = none ↔ ∀ name, pool.Reaches call.targetType name →
          ∀ method, ¬ pool.Declares name call.signature method)) := by
  refine ⟨?either, fun shallow => ⟨?first, ?missing⟩⟩
  case either =>
    rw [Pool.targetId_eq]
    cases found : pool.declaration? call.targetType call.signature with
    | none => exact .inl rfl
    | some method =>
        obtain ⟨name, reaches, declares⟩ := Pool.declares_of_declaration found
        exact .inr ⟨name, method, reaches, declares, rfl⟩
  case first => rw [Pool.targetId_eq, Pool.declaration_preorder shallow]
  case missing =>
    rw [List.findSome?_eq_none_iff]
    refine forall_congr' fun name => ?_
    rw [Pool.mem_preorder_iff shallow, Pool.declaredIn_eq_none_iff]

/-- A call of `void run()` on a type. -/
def runCall (targetType : String) : Invocation where
  id := ""
  method := ⟨0⟩
  targetType := targetType
  signature := { name := "run", params := [], returnType := "void" }
  line := none

/-- Types above each other in circles and on two ways, the last two of which declare `void run()`. -/
def cyclicPool : Pool :=
  let run : Signature := (runCall "p.A").signature
  (({} : Builder).performAll
    [.type "p.A", .superType ⟨0⟩ "p.B", .superType ⟨0⟩ "p.C",
      .type "p.B", .superType ⟨1⟩ "p.A", .superType ⟨1⟩ "p.D",
      .type "p.C", .superType ⟨2⟩ "p.D", .method ⟨2⟩ run {},
      .type "p.D", .superType ⟨3⟩ "p.A", .method ⟨3⟩ run {}]).1.finish.pool

theorem targetId_preorder_cyclic :
    cyclicPool.IsShallow "p.A" ∧ cyclicPool.preorder [] ["p.A"] = ["p.A", "p.B", "p.D", "p.C"] ∧
      cyclicPool.targetId (runCall "p.A") = "<p.D: void run()>" := by
  have shallow : cyclicPool.IsShallow "p.A" := Pool.isShallow_of_length (by decide +kernel)
  have enterable : ∀ name ∈ ["p.A", "p.B", "p.C", "p.D"], cyclicPool.IsEnterable name := by
    unfold Pool.IsEnterable
    decide +kernel
  have above : cyclicPool.superTypesOf "p.A" = ["p.B", "p.C"] ∧
      cyclicPool.superTypesOf "p.B" = ["p.A", "p.D"] ∧
      cyclicPool.superTypesOf "p.C" = ["p.D"] ∧ cyclicPool.superTypesOf "p.D" = ["p.A"] := by
    decide +kernel
  have searched : cyclicPool.preorder [] ["p.A"] = ["p.A", "p.B", "p.D", "p.C"] := by
    simp [Pool.preorder_entered, Pool.preorder_skipped, Pool.preorder, enterable, above]
  refine ⟨shallow, searched, ?_⟩
  rw [((targetId_preorder cyclicPool (runCall "p.A")).2 shallow).1, runCall, searched]
  decide +kernel

/-- Where a path leads from the type that a call names to one that declares its signature, the call
reaches a method of this signature, unless the walk cuts off the path. -/
theorem targetId_of_path {pool : Pool} {call : Invocation} {names : List String} {last : String}
    {method : Handle .method} (path : pool.IsPath names)
    (starts : names.head? = some call.targetType) (ends : names.getLast? = some last)
    (declares : pool.Declares last call.signature method) :
    (∃ name found, pool.Reaches call.targetType name ∧ pool.Declares name call.signature found ∧
      pool.targetId call = (pool.methodAt found).id) ∨ pool.CutsOff call.targetType names := by
  refine (Pool.toured_of_path path starts).imp_left fun all => ?_
  obtain ⟨stop, toured, isLast⟩ := all last (List.mem_of_getLast? ends)
  cases found : pool.declaration? call.targetType call.signature with
  | none =>
      rw [Pool.declaration?, Pool.walk_eq_tour, List.findSome?_eq_none_iff] at found
      have missing := Pool.declaredIn_eq_none_iff.mp (found stop toured)
      exact absurd (isLast ▸ declares) (missing method)
  | some reached =>
      obtain ⟨name, reaches, declared⟩ := Pool.declares_of_declaration found
      exact ⟨name, reached, reaches, declared, by rw [Pool.targetId_eq, found]; rfl⟩

theorem targetId_of_path_cyclic :
    cyclicPool.IsPath ["p.A", "p.C", "p.D"] ∧
      cyclicPool.Declares "p.D" (runCall "p.A").signature ⟨1⟩ ∧
      ((∃ name found, cyclicPool.Reaches "p.A" name ∧
          cyclicPool.Declares name (runCall "p.A").signature found ∧
          cyclicPool.targetId (runCall "p.A") = (cyclicPool.methodAt found).id) ∨
        cyclicPool.CutsOff "p.A" ["p.A", "p.C", "p.D"]) := by
  have path : cyclicPool.IsPath ["p.A", "p.C", "p.D"] :=
    ⟨by unfold Pool.IsEnterable; decide +kernel, by decide +kernel⟩
  have declares : cyclicPool.Declares "p.D" (runCall "p.A").signature ⟨1⟩ :=
    ⟨⟨3⟩, by decide +kernel⟩
  exact ⟨path, declares, targetId_of_path path rfl rfl declares⟩

/-- The walk, given up after so many stops. -/
def Pool.walkWithin (pool : Pool) (signature : Signature) :
    Nat → List String → List Stop → Option (Option (Handle .method))
  | 0, _, _ => none
  | _ + 1, _, [] => some none
  | more + 1, entered, stop :: rest =>
      if passesBy entered stop then pool.walkWithin signature more entered rest
      else
        match pool.typeNamed? stop.1 with
        | none => pool.walkWithin signature more entered rest
        | some type =>
            match pool.findMethod? type signature with
            | some method => some (some method)
            | none =>
                pool.walkWithin signature more (stop.1 :: entered)
                  (pool.stopsAbove type stop.2 ++ rest)

theorem Pool.walk_of_walkWithin {pool : Pool} {signature : Signature} {limit : Nat}
    {entered : List String} {stops : List Stop} {answer : Option (Handle .method)}
    (ended : pool.walkWithin signature limit entered stops = some answer) :
    pool.walk signature entered stops = answer := by
  fun_induction walkWithin pool signature limit entered stops with
  | case1 => cases ended
  | case2 => rw [walk]; exact Option.some.inj ended
  | case3 entered more stop rest passed inductionHypothesis =>
      rw [walk, dif_pos passed, inductionHypothesis ended]
  | case4 entered more stop rest fresh unknown inductionHypothesis =>
      rw [walk, dif_neg fresh]
      split
      · exact inductionHypothesis ended
      · next known => cases unknown.symm.trans known
  | case5 entered more stop rest fresh type known method found =>
      rw [walk, dif_neg fresh]
      split
      · next unknown => cases known.symm.trans unknown
      · next other isOther =>
        obtain rfl := Option.some.inj (known.symm.trans isOther)
        rw [found]
        exact Option.some.inj ended
  | case6 entered more stop rest fresh type known missing inductionHypothesis =>
      rw [walk, dif_neg fresh]
      split
      · next unknown => cases known.symm.trans unknown
      · next other isOther =>
        obtain rfl := Option.some.inj (known.symm.trans isOther)
        rw [missing]
        exact inductionHypothesis ended

/-- Types each of which is above the one before it, where the last but one is above the first one too,
and the last one declares `void run()`. -/
def ladderPool : Pool :=
  let rung (height : Nat) : String := "T" ++ toString height
  let steps : List Step :=
    (List.range (maxHierarchyDepth + 2)).flatMap fun height =>
      [.type (rung height), .superType ⟨height⟩ (rung (height + 1))]
  (({} : Builder).performAll (steps ++
    [.superType ⟨0⟩ (rung maxHierarchyDepth),
      .method ⟨maxHierarchyDepth + 1⟩ (runCall "T0").signature {}])).1.finish.pool

/-- The walk climbs the ladder first and then does not come back to its upper end. -/
theorem ladderPool_hides :
    (∀ name ∈ ["T0", "T64", "T65"], name ≠ rootType ∧ (ladderPool.typeNamed? name).isSome) ∧
      ["T0", "T64", "T65"].IsChain (fun lower upper => upper ∈ ladderPool.superTypesOf lower) ∧
      ladderPool.typeNamed? "T65" = some ⟨65⟩ ∧ (ladderPool.typeAt ⟨65⟩).methods = [⟨0⟩] ∧
      ladderPool.methods.map Method.id = #["<T65: void run()>"] ∧
      (ladderPool.methodAt ⟨0⟩).signature = (runCall "T0").signature ∧
      ladderPool.walkWithin (runCall "T0").signature 68 [] [("T0", 0)] = some none := by
  decide +kernel

/-- A path of two steps that the walk cuts off. -/
theorem targetId_incomplete :
    ¬ ∀ (pool : Pool) (call : Invocation) (names : List String) (last : String)
      (method : Handle .method), pool.IsPath names → names.head? = some call.targetType →
        names.getLast? = some last → names.length ≤ maxHierarchyDepth + 1 →
        pool.Declares last call.signature method →
        ∃ name found, pool.Declares name call.signature found ∧
          pool.targetId call = (pool.methodAt found).id := by
  intro complete
  obtain ⟨enterable, upward, known, methods, ids, signature, ended⟩ := ladderPool_hides
  have declares : ladderPool.Declares "T65" (runCall "T0").signature ⟨0⟩ :=
    ⟨⟨65⟩, known, methods ▸ List.mem_singleton_self _, signature⟩
  obtain ⟨name, found, declared, same⟩ :=
    complete ladderPool (runCall "T0") ["T0", "T64", "T65"] "T65" ⟨0⟩ ⟨enterable, upward⟩ rfl rfl
      (by decide) declares
  have missing : ladderPool.declaration? (runCall "T0").targetType (runCall "T0").signature = none :=
    Pool.walk_of_walkWithin ended
  have kept : ladderPool.targetId (runCall "T0") = "<T0: void run()>" := by
    rw [Pool.targetId_eq, missing]
    decide +kernel
  have ids : (ladderPool.methodAt found).id = (#["<T65: void run()>"][found.index]?).getD "" := by
    rw [← ids, Array.getElem?_map, Pool.methodAt]
    cases ladderPool.methods[found.index]? <;> rfl
  rw [kept, ids] at same
  rcases found with ⟨_ | other⟩
  · exact absurd same (by decide +kernel)
  · exact absurd same (by simp)

end Correlate.Compiled
