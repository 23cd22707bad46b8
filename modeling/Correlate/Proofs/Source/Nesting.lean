/-
Module: Correlate.Proofs.Source.Nesting
Purpose: How deeply lambdas may be nested in a document, and in the file that is read from it.
Main exports: LambdaChain, NestsWithin, Document.bodies, File.ofDocument_succeeds_iff, File.Shallow,
  File.shallow_of_lowered
-/
import Correlate.Proofs.Source.Documents

namespace Correlate.Source

/-!
Reading a body has a budget, which every lambda on the way to an element takes one of.  Whether the
budget is enough depends on the document alone: no chain of lambdas, each in the body of the one before
it, may be longer.  Nothing else goes wrong but a type outside all others that has no name.
-/

/-! ### Chains of lambdas -/

/-- There are so many lambdas, the first one in a body and each other one in the body of the one
before it. -/
inductive LambdaChain : List BodyElement → Nat → Prop where
  | nil (body : List BodyElement) : LambdaChain body 0
  | cons {params : List ParamNode} {inner body : List BodyElement} {position : Option Position}
      {n : Nat} (listed : BodyElement.lambda params inner position ∈ body)
      (chain : LambdaChain inner n) : LambdaChain body (n + 1)

/-- No chain of lambdas in a body is longer than the limit. -/
def NestsWithin (limit : Nat) (body : List BodyElement) : Prop :=
  ∀ n, LambdaChain body n → n ≤ limit

/-- An element is no lambda, or leaves room for the lambdas in its body. -/
def BodyElement.Leaves (limit : Nat) (element : BodyElement) : Prop :=
  ∀ params inner position, element = .lambda params inner position →
    ∃ deeper, limit = deeper + 1 ∧ NestsWithin deeper inner

theorem nestsWithin_iff {limit : Nat} {body : List BodyElement} :
    NestsWithin limit body ↔ ∀ element ∈ body, element.Leaves limit := by
  constructor
  · rintro within _ listed params inner position rfl
    have room : 1 ≤ limit := within 1 (.cons listed (.nil inner))
    refine ⟨limit - 1, (Nat.sub_add_cancel room).symm, fun n chain => ?_⟩
    have longer := within (n + 1) (.cons listed chain)
    exact Nat.le_sub_of_add_le longer
  · intro leaves n chain
    cases chain with
    | nil => exact Nat.zero_le limit
    | cons listed chain =>
        obtain ⟨deeper, rfl, within⟩ := leaves _ listed _ _ _ rfl
        exact Nat.succ_le_succ (within _ chain)

theorem BodyElement.mem_of_mem_numbered {declared : Nat} {body : List BodyElement}
    {entry : Nat × BodyElement} (member : entry ∈ BodyElement.numbered declared body) :
    entry.2 ∈ body := by
  induction body generalizing declared with
  | nil => cases member
  | cons element rest inductionHypothesis =>
      rcases List.mem_cons.mp member with rfl | later
      · exact List.mem_cons_self
      · exact List.mem_cons_of_mem _ (inductionHypothesis later)

/-- The lambdas of a body are elements of it. -/
theorem LambdaNode.mem_of_numbered {declared : Nat} {body : List BodyElement} {node : LambdaNode}
    (member : node ∈ (BodyElement.numbered declared body).filterMap LambdaNode.of?) :
    BodyElement.lambda node.params node.body node.position ∈ body := by
  obtain ⟨⟨before, element⟩, isNumbered, isNode⟩ := List.mem_filterMap.mp member
  cases element with
  | lambda =>
      obtain rfl := Option.some.inj isNode
      exact BodyElement.mem_of_mem_numbered isNumbered
  | _ => cases isNode

/-- The bodies of the initializers and methods of a type. -/
def TypeNode.bodies (node : TypeNode) : List (List BodyElement) :=
  node.initializers.map InitializerNode.body ++ node.methods.map MethodNode.body

/-- The bodies of all types, nested ones included. -/
def Document.bodies (document : Document) : List (List BodyElement) :=
  (TypeNode.preorderAll none 0 document.types).flatMap fun entry => entry.2.bodies

/-- What is in the body of a method of a type is in one of its bodies.  The class initializer has those
of all static initializers. -/
theorem TypeNode.exists_body_of_outline {node : TypeNode} {outline : Outline}
    (listed : outline ∈ node.outlines) {element : BodyElement} (member : element ∈ outline.body) :
    ∃ body ∈ node.bodies, element ∈ body := by
  have initializer {added : InitializerNode} (isListed : added ∈ node.initializers) :
      added.body ∈ node.bodies :=
    List.mem_append_left _ (List.mem_map_of_mem isListed)
  rcases List.mem_cons.mp listed with rfl | listed
  · obtain ⟨added, isListed, inBody⟩ := List.mem_flatMap.mp member
    exact ⟨added.body, initializer (List.mem_of_mem_filter isListed), inBody⟩
  rcases List.mem_append.mp listed with isBlock | isMethod
  · obtain ⟨added, isListed, rfl⟩ := List.mem_map.mp isBlock
    exact ⟨added.body, initializer (List.mem_of_mem_filter isListed), member⟩
  · obtain ⟨declared, isListed, rfl⟩ := List.mem_map.mp isMethod
    have body : (TypeNode.method declared).body = declared.body := by
      unfold TypeNode.method
      split <;> rfl
    rw [body] at member
    exact ⟨declared.body, List.mem_append_right _ (List.mem_map_of_mem isListed), member⟩

/-! ### Documents that are read -/

/-- An attempt comes to something. -/
def Succeeds {ε α : Type} (attempt : Except ε α) : Prop :=
  ∃ answer, attempt = .ok answer

/-- A second attempt that does not depend on what the first one comes to. -/
theorem succeeds_bind {ε α β : Type} {first : Except ε α} {next : α → Except ε β}
    {possible further : Prop} (now : Succeeds first ↔ possible)
    (later : ∀ found, Succeeds (next found) ↔ further) :
    Succeeds (first >>= next) ↔ possible ∧ further := by
  rw [← now]
  constructor
  · rintro ⟨answer, same⟩
    obtain ⟨found, done, others⟩ := bind_eq_ok_iff.mp same
    exact ⟨⟨found, done⟩, (later found).mp ⟨answer, others⟩⟩
  · rintro ⟨⟨found, done⟩, others⟩
    obtain ⟨answer, same⟩ := (later found).mpr others
    exact ⟨answer, bind_eq_ok_iff.mpr ⟨found, done, same⟩⟩

/-- Attempts one after the other, none of which depends on those before it. -/
theorem succeeds_foldlM {ε α β : Type} {step : β → α → Except ε β} {possible : α → Prop}
    (each : ∀ state item, Succeeds (step state item) ↔ possible item) {items : List α} {start : β} :
    Succeeds (items.foldlM step start) ↔ ∀ item ∈ items, possible item := by
  induction items generalizing start with
  | nil => exact ⟨fun _ => nofun, fun _ => ⟨start, rfl⟩⟩
  | cons item rest inductionHypothesis =>
      rw [List.foldlM_cons, List.forall_mem_cons]
      exact succeeds_bind (each start item) fun _ => inductionHypothesis

namespace File

variable {file : File} {method : Handle .method} {type : Handle .type}
  {parent : Option (Handle .type)}

theorem lowerElement_succeeds_iff {budget : Nat} {element : BodyElement}
    (deeper : ∀ rest, budget = rest + 1 → ∀ (file : File) (method : Handle .method) body,
      Succeeds (file.lowerBody rest method body) ↔ NestsWithin rest body) :
    Succeeds (file.lowerElement budget method element) ↔ element.Leaves budget := by
  cases element with
  | lambda params inner position =>
      cases budget with
      | zero =>
          constructor
          · rintro ⟨_, ⟨⟩⟩
          · intro leaves
            obtain ⟨_, ⟨⟩, _⟩ := leaves params inner position rfl
      | succ rest =>
          refine (deeper rest rfl _ _ inner).trans ⟨?_, fun leaves => ?_⟩
          · rintro within _ _ _ ⟨⟩
            exact ⟨rest, rfl, within⟩
          · obtain ⟨_, same, within⟩ := leaves params inner position rfl
            obtain rfl := Nat.succ.inj same
            exact within
  | _ => exact ⟨fun _ => nofun, fun _ => ⟨_, rfl⟩⟩

/-- A body is read if the budget is enough for every chain of lambdas in it. -/
theorem lowerBody_succeeds_iff (budget : Nat) (file : File) (method : Handle .method)
    (body : List BodyElement) :
    Succeeds (file.lowerBody budget method body) ↔ NestsWithin budget body := by
  induction budget using Nat.strongRecOn generalizing file method body with
  | _ budget inductionHypothesis =>
      have deeper (rest : Nat) (same : budget = rest + 1) :=
        inductionHypothesis rest (same ▸ Nat.lt_succ_self rest)
      rw [nestsWithin_iff]
      induction body generalizing file with
      | nil => exact ⟨fun _ => nofun, fun _ => ⟨file, rfl⟩⟩
      | cons element rest others =>
          rw [lowerBody, List.forall_mem_cons]
          exact succeeds_bind (lowerElement_succeeds_iff deeper) others

theorem lowerInitializer_succeeds_iff (file : File) (node : InitializerNode) :
    Succeeds (file.lowerInitializer type node) ↔ NestsWithin maxLambdaNesting node.body :=
  lowerBody_succeeds_iff _ _ _ _

theorem lowerMethod_succeeds_iff (file : File) (node : MethodNode) :
    Succeeds (file.lowerMethod type node) ↔ NestsWithin maxLambdaNesting node.body :=
  lowerBody_succeeds_iff _ _ _ _

theorem lowerHead_succeeds_iff {name : Option String} {position : Option Position} :
    Succeeds (file.lowerHead parent name position) ↔ parent.isSome = true ∨ name.isSome = true := by
  cases name <;> cases parent <;> simp [lowerHead, Succeeds, pure, Except.pure, throw, throwThe,
    MonadExceptOf.throw]

/-- All bodies of the types that are listed in preorder are within the limit. -/
def BodiesWithin (entries : List (Option Nat × TypeNode)) : Prop :=
  ∀ entry ∈ entries, ∀ body ∈ entry.2.bodies, NestsWithin maxLambdaNesting body

theorem bodiesWithin_cons {outer : Option Nat} {node : TypeNode}
    {entries : List (Option Nat × TypeNode)} : BodiesWithin ((outer, node) :: entries) ↔
      (∀ added ∈ node.initializers, NestsWithin maxLambdaNesting added.body) ∧
        (∀ declared ∈ node.methods, NestsWithin maxLambdaNesting declared.body) ∧
          BodiesWithin entries := by
  rw [BodiesWithin, List.forall_mem_cons, TypeNode.bodies, List.forall_mem_append,
    List.forall_mem_map, List.forall_mem_map, and_assoc]
  rfl

theorem bodiesWithin_append {entries others : List (Option Nat × TypeNode)} :
    BodiesWithin (entries ++ others) ↔ BodiesWithin entries ∧ BodiesWithin others :=
  List.forall_mem_append

mutual

/-- A type is read if it may go without a name or has one, and if its bodies and those of the types
nested in it are within the limit. -/
theorem lowerType_succeeds_iff (outer : Option Nat) (i : Nat) :
    ∀ {node : TypeNode} {parent : Option (Handle .type)} {file : File},
      Succeeds (file.lowerType parent node) ↔
        (parent.isSome = true ∨ node.name.isSome = true) ∧ BodiesWithin (node.preorder outer i)
  | ⟨name, position, fields, methods, initializers, types, typeUses⟩, parent, file => by
      rw [lowerType]
      have nested (type : Handle .type) (file : File) :=
        (@lowerTypes_succeeds_iff (some i) (i + 1) types (some type) file).trans
          (and_iff_right fun _ _ => .inl rfl)
      refine (succeeds_bind lowerHead_succeeds_iff fun ⟨added, type⟩ =>
        succeeds_bind (succeeds_foldlM lowerInitializer_succeeds_iff) fun initialized =>
          succeeds_bind (succeeds_foldlM lowerMethod_succeeds_iff) fun declared =>
            nested type _).trans ?_
      rw [TypeNode.preorder, bodiesWithin_cons]

/-- Types are read if each of them is. -/
theorem lowerTypes_succeeds_iff (outer : Option Nat) (i : Nat) :
    ∀ {nodes : List TypeNode} {parent : Option (Handle .type)} {file : File},
      Succeeds (file.lowerTypes parent nodes) ↔
        (∀ node ∈ nodes, parent.isSome = true ∨ node.name.isSome = true) ∧
          BodiesWithin (TypeNode.preorderAll outer i nodes)
  | [], parent, file => ⟨fun _ => ⟨nofun, nofun⟩, fun _ => ⟨file, rfl⟩⟩
  | node :: rest, parent, file => by
      rw [lowerTypes]
      refine (succeeds_bind (lowerType_succeeds_iff outer i) fun found =>
        lowerTypes_succeeds_iff outer (i + (node.preorder outer i).length)).trans ?_
      rw [TypeNode.preorderAll, bodiesWithin_append, List.forall_mem_cons]
      exact and_and_and_comm

end

variable {path : String} {document : Document}

/-- A document is read if no type outside all others is without a name, and if no chain of lambdas in
a body is longer than the limit. -/
theorem ofDocument_succeeds_iff :
    Succeeds (ofDocument path document) ↔ (∀ node ∈ document.types, node.name.isSome = true) ∧
      ∀ body ∈ document.bodies, NestsWithin maxLambdaNesting body := by
  refine (lowerTypes_succeeds_iff none 0).trans (and_congr ?_ ?_)
  · simp only [Option.isSome_none, Bool.false_eq_true, false_or]
  · simp only [BodiesWithin, Document.bodies, List.forall_mem_flatMap]

/-! ### Files that are read -/

/-- No chain of lambdas, each in the one before it and the first one in a method, is longer than the
limit. -/
def LambdasWithin (file : File) : Nat → Handle .method → Prop
  | 0, method => (file.methodAt method).lambdas = []
  | limit + 1, method => ∀ lambda ∈ (file.methodAt method).lambdas, file.LambdasWithin limit lambda

/-- The lambdas in the methods of all types are nested within the limit. -/
def Shallow (file : File) : Prop :=
  ∀ type, ∀ method ∈ (file.typeAt type).methods, file.LambdasWithin maxLambdaNesting method

/-- Lists of the same length have entries at the same places. -/
theorem exists_of_length_eq {α β : Type} {list : List α} {entries : List β}
    (lengths : list.length = entries.length) {one : α} (listed : one ∈ list) :
    ∃ (n : Nat) (entry : β), list[n]? = some one ∧ entries[n]? = some entry := by
  obtain ⟨n, place⟩ := List.getElem?_of_mem listed
  have bound := (List.getElem?_eq_some_iff.mp place).1
  rw [lengths] at bound
  exact ⟨n, entries[n], place, List.getElem?_eq_getElem bound⟩

/-- The lambdas of a method are nested like those of the body it shows. -/
theorem BodyShown.lambdasWithin {around : List Frame} {body : List BodyElement} {limit : Nat}
    (shown : file.BodyShown around method body) (within : NestsWithin limit body) :
    file.LambdasWithin limit method := by
  induction shown generalizing limit with
  | @shown around method body _ lambdas_length _ _ inductionHypothesis =>
      have leaves := nestsWithin_iff.mp within
      -- Every lambda of the method is one of the body.
      have listed {lambda : Handle .method} (member : lambda ∈ (file.methodAt method).lambdas) :
          ∃ deeper, limit = deeper + 1 ∧ file.LambdasWithin deeper lambda := by
        obtain ⟨n, node, place, nodePlace⟩ := exists_of_length_eq lambdas_length member
        obtain ⟨deeper, same, nested⟩ :=
          leaves _ (LambdaNode.mem_of_numbered (List.mem_of_getElem? nodePlace)) _ _ _ rfl
        exact ⟨deeper, same, inductionHypothesis n lambda node place nodePlace nested⟩
      cases limit with
      | zero =>
          refine List.eq_nil_iff_forall_not_mem.mpr fun lambda member => ?_
          obtain ⟨_, same, _⟩ := listed member
          cases same
      | succ limit =>
          intro lambda member
          obtain ⟨_, same, lambdasWithin⟩ := listed member
          obtain rfl := Nat.succ.inj same
          exact lambdasWithin

theorem exists_of_forall₂ {α β : Type} {relation : α → β → Prop} {list : List α}
    {entries : List β} (related : List.Forall₂ relation list entries) {one : α}
    (listed : one ∈ list) : ∃ entry ∈ entries, relation one entry := by
  induction related with
  | nil => cases listed
  | cons first _ inductionHypothesis =>
      rcases List.mem_cons.mp listed with rfl | later
      · exact ⟨_, List.mem_cons_self, first⟩
      · obtain ⟨entry, member, isRelated⟩ := inductionHypothesis later
        exact ⟨entry, List.mem_cons_of_mem _ member, isRelated⟩

/-- A method of a type is one of the document. -/
theorem Shows.method_shown (shows : file.Shows path document)
    (listed : method ∈ (file.typeAt type).methods) :
    ∃ entry ∈ TypeNode.preorderAll none 0 document.types, ∃ outline ∈ entry.2.outlines,
      file.MethodShown type method outline := by
  by_cases known : type.index < file.types.size
  · rw [shows.types_size] at known
    have place := List.getElem?_eq_getElem known
    generalize (TypeNode.preorderAll none 0 document.types)[type.index] = entry at place
    have shown := shows.types type.index entry.1 entry.2 place
    exact ⟨entry, List.mem_of_getElem? place, exists_of_forall₂ shown.methods listed⟩
  · have unknown : file.typeAt type = default := by
      rw [typeAt, Array.getElem?_eq_none (Nat.le_of_not_lt known)]
      rfl
    rw [unknown] at listed
    cases listed

/-- In a file that shows a document whose bodies are within the limit, lambdas are. -/
theorem Shows.shallow (shows : file.Shows path document)
    (within : ∀ body ∈ document.bodies, NestsWithin maxLambdaNesting body) : file.Shallow := by
  intro type method listed
  obtain ⟨entry, isEntry, outline, isOutline, methodShown⟩ := shows.method_shown listed
  refine methodShown.body.lambdasWithin (nestsWithin_iff.mpr fun element member => ?_)
  obtain ⟨body, isBody, inBody⟩ := TypeNode.exists_body_of_outline isOutline member
  exact nestsWithin_iff.mp (within body (List.mem_flatMap.mpr ⟨entry, isEntry, isBody⟩)) element inBody

/-- In a file that is read, lambdas are nested within the limit. -/
theorem shallow_of_lowered (lowered : ofDocument path document = .ok file) : file.Shallow :=
  (shows_of_lowered lowered).shallow (ofDocument_succeeds_iff.mp ⟨file, lowered⟩).2

/-- The depth of a method leaves room for the lambdas in it. -/
theorem Shallow.exists_lambdasWithin (shallow : file.Shallow) (formed : file.WellFormed)
    {method : Handle .method} (known : method.index < file.methods.size) :
    ∃ limit, file.LambdasWithin limit method ∧
      file.nestingDepth method + limit = maxLambdaNesting := by
  generalize place : method.index = i at known
  induction i using Nat.strongRecOn generalizing method with
  | _ i inductionHypothesis =>
      subst place
      cases inside : (file.methodAt method).parent with
      | none =>
          have declared : (file.methodAt method).kind ≠ .lambda := by
            simp [(formed.shape known).inside, inside]
          have listed := formed.listed_of_method known declared
          have depth := formed.nestingDepth_of_listed listed
          exact ⟨maxLambdaNesting, shallow _ method listed, by rw [depth, Nat.zero_add]⟩
      | some outer =>
          have before := formed.parent_lt inside
          have listed := formed.mem_lambdas.mpr ⟨known, inside⟩
          obtain ⟨limit, within, depth⟩ :=
            inductionHypothesis outer.index before rfl (Nat.lt_trans before known)
          rw [formed.nestingDepth_of_parent inside]
          cases limit with
          | zero =>
              rw [LambdasWithin] at within
              rw [within] at listed
              cases listed
          | succ limit =>
              rw [LambdasWithin] at within
              exact ⟨limit, within method listed, by omega⟩

theorem Shallow.nestingDepth_le (shallow : file.Shallow) (formed : file.WellFormed)
    {method : Handle .method} (known : method.index < file.methods.size) :
    file.nestingDepth method ≤ maxLambdaNesting := by
  obtain ⟨limit, _, sum⟩ := shallow.exists_lambdasWithin formed known
  exact sum ▸ Nat.le_add_right _ limit

end File

end Correlate.Source
