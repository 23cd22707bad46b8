/-
Module: Correlate.Proofs.Source.ArgumentCounts
Purpose: Calls in files that are read have no more arguments than a word can count.
Main exports: CallPasses, PassesWords, Document.passesWords_of_decoded, File.arity_lt_of_read
-/
import Correlate.Proofs.Source.Bases

namespace Correlate.Source

open Json

/-!
The number of arguments of a call comes from the text of a document, where it may be any word.  Reading
takes it over as it is, however deep the call stands in lambdas and types.
-/

/-! ### Numbers of arguments in a body -/

/-- Somewhere in a body, in its lambdas as well, a call passes so many arguments. -/
inductive CallPasses : List BodyElement → Nat → Prop where
  | here {name : String} {args : Nat} {base assignTo : Option String} {position : Option Position}
      {body : List BodyElement} (listed : BodyElement.call name args base assignTo position ∈ body) :
      CallPasses body args
  | inside {params : List ParamNode} {inner body : List BodyElement} {position : Option Position}
      {args : Nat} (listed : BodyElement.lambda params inner position ∈ body)
      (passes : CallPasses inner args) : CallPasses body args

/-- All numbers of arguments in a body are words. -/
def PassesWords (body : List BodyElement) : Prop :=
  ∀ args, CallPasses body args → args < Text.wordLimit

/-- An element is no call with more arguments than a word, and has none in its body. -/
structure BodyElement.PassesWords (element : BodyElement) : Prop where
  call : ∀ name args base assignTo position, element = .call name args base assignTo position →
    args < Text.wordLimit
  lambda : ∀ params inner position, element = .lambda params inner position →
    Source.PassesWords inner

theorem passesWords_iff {body : List BodyElement} :
    PassesWords body ↔ ∀ element ∈ body, element.PassesWords := by
  constructor
  · intro words element listed
    constructor
    · rintro name args base assignTo position rfl
      exact words args (.here listed)
    · rintro params inner position rfl args passes
      exact words args (.inside listed passes)
  · intro words args passes
    cases passes with
    | here listed => exact (words _ listed).call _ _ _ _ _ rfl
    | inside listed passes => exact (words _ listed).lambda _ _ _ rfl args passes

/-! ### Decoding -/

theorem exists_of_mapM {α β : Type} {decode : α → Option β} {items : List α} {found : List β}
    (decoded : items.mapM decode = some found) {one : β} (listed : one ∈ found) :
    ∃ item ∈ items, decode item = some one := by
  induction items generalizing found with
  | nil =>
      obtain rfl := Option.some.inj decoded
      cases listed
  | cons item rest inductionHypothesis =>
      rw [List.mapM_cons] at decoded
      obtain ⟨first, isFirst, decoded⟩ := Option.bind_eq_some_iff.mp decoded
      obtain ⟨others, areOthers, decoded⟩ := Option.bind_eq_some_iff.mp decoded
      obtain rfl := Option.some.inj decoded
      rcases List.mem_cons.mp listed with rfl | later
      · exact ⟨item, List.mem_cons_self, isFirst⟩
      · obtain ⟨other, member, isOther⟩ := inductionHypothesis areOthers later
        exact ⟨other, List.mem_cons_of_mem _ member, isOther⟩

/-- Every entry of a list that is read is read from some value. -/
theorem exists_of_nodes {α : Type} {decode : Json → Option α} {field : FieldValue} {nodes : List α}
    (decoded : nodes? decode field = some nodes) {node : α} (listed : node ∈ nodes) :
    ∃ json, decode json = some node := by
  cases field with
  | none =>
      obtain rfl := Option.some.inj decoded
      cases listed
  | some value =>
      cases value with
      | array items =>
          obtain ⟨item, _, isNode⟩ := exists_of_mapM decoded listed
          exact ⟨item, isNode⟩
      | _ => cases decoded

theorem lt_of_word64 {field : FieldValue} {n : Nat} (decoded : required? word64? field = some n) :
    n < Text.wordLimit := by
  cases field with
  | none => cases decoded
  | some value =>
      cases value with
      | number numeral =>
          obtain ⟨accepted, same⟩ := Option.ite_none_right_eq_some.mp decoded
          obtain rfl := Option.some.inj same
          simp only [Bool.and_eq_true, decide_eq_true_eq] at accepted
          exact accepted.2
      | _ => cases decoded

theorem BodyElement.passesWords_of_decoded {fuel : Nat} {inLambda : Bool} {json : Json}
    {element : BodyElement} (decoded : BodyElement.ofJson? inLambda fuel json = some element) :
    element.PassesWords := by
  induction fuel generalizing inLambda json element with
  | zero => cases decoded
  | succ fuel inductionHypothesis =>
      rw [BodyElement.ofJson?] at decoded
      obtain ⟨⟨tag, content⟩, _, decoded⟩ := Option.bind_eq_some_iff.mp decoded
      obtain ⟨kind, _, decoded⟩ := Option.bind_eq_some_iff.mp decoded
      -- The kinds in their order: the first one is a call, the seventh one a lambda.
      split at decoded
      case h_1 =>
        obtain ⟨fields, _, decoded⟩ := Option.bind_eq_some_iff.mp decoded
        split at decoded
        · obtain ⟨_, _, decoded⟩ := Option.bind_eq_some_iff.mp decoded
          obtain ⟨args, isWord, decoded⟩ := Option.bind_eq_some_iff.mp decoded
          obtain ⟨_, _, decoded⟩ := Option.bind_eq_some_iff.mp decoded
          obtain ⟨_, _, decoded⟩ := Option.bind_eq_some_iff.mp decoded
          obtain ⟨_, _, decoded⟩ := Option.bind_eq_some_iff.mp decoded
          obtain rfl := Option.some.inj decoded
          refine ⟨?_, nofun⟩
          rintro _ _ _ _ _ ⟨⟩
          exact lt_of_word64 isWord
        · cases decoded
      case h_7 =>
        obtain ⟨fields, _, decoded⟩ := Option.bind_eq_some_iff.mp decoded
        split at decoded
        · obtain ⟨_, _, decoded⟩ := Option.bind_eq_some_iff.mp decoded
          obtain ⟨inner, isInner, decoded⟩ := Option.bind_eq_some_iff.mp decoded
          obtain ⟨_, _, decoded⟩ := Option.bind_eq_some_iff.mp decoded
          obtain rfl := Option.some.inj decoded
          refine ⟨nofun, ?_⟩
          rintro _ _ _ ⟨⟩
          refine passesWords_iff.mpr fun element listed => ?_
          obtain ⟨_, isElement⟩ := exists_of_nodes isInner listed
          exact inductionHypothesis isElement
        · cases decoded
      case h_10 => cases decoded
      all_goals
        obtain ⟨fields, _, decoded⟩ := Option.bind_eq_some_iff.mp decoded
        constructor
        · rintro _ _ _ _ _ rfl
          split at decoded <;> simp [Option.bind_eq_some_iff] at decoded
        · rintro _ _ _ rfl
          split at decoded <;> simp [Option.bind_eq_some_iff] at decoded

theorem passesWords_of_body {fuel : Nat} {field : FieldValue} {body : List BodyElement}
    (decoded : body? fuel field = some body) : PassesWords body := by
  refine passesWords_iff.mpr fun element listed => ?_
  obtain ⟨_, isElement⟩ := exists_of_nodes decoded listed
  exact BodyElement.passesWords_of_decoded isElement

theorem MethodNode.passesWords_of_decoded {fuel : Nat} {json : Json} {node : MethodNode}
    (decoded : MethodNode.ofJson? fuel json = some node) : PassesWords node.body := by
  rw [MethodNode.ofJson?] at decoded
  obtain ⟨fields, _, decoded⟩ := Option.bind_eq_some_iff.mp decoded
  split at decoded
  · simp only [Option.bind_eq_bind, Option.bind_eq_some_iff] at decoded
    obtain ⟨_, _, _, _, _, _, _, _, _, _, _, _, body, isBody, decoded⟩ := decoded
    obtain rfl := Option.some.inj decoded
    exact passesWords_of_body isBody
  · cases decoded

theorem InitializerNode.passesWords_of_decoded {fuel : Nat} {json : Json} {node : InitializerNode}
    (decoded : InitializerNode.ofJson? fuel json = some node) : PassesWords node.body := by
  rw [InitializerNode.ofJson?] at decoded
  obtain ⟨fields, _, decoded⟩ := Option.bind_eq_some_iff.mp decoded
  split at decoded
  · simp only [Option.bind_eq_bind, Option.bind_eq_some_iff] at decoded
    obtain ⟨_, _, _, _, body, isBody, decoded⟩ := decoded
    obtain rfl := Option.some.inj decoded
    exact passesWords_of_body isBody
  · cases decoded

/-- The bodies of all types of a list, nested ones included, pass words. -/
def EntriesPassWords (entries : List (Option Nat × TypeNode)) : Prop :=
  ∀ entry ∈ entries, ∀ body ∈ entry.2.bodies, PassesWords body

theorem entriesPassWords_preorderAll {nodes : List TypeNode}
    (each : ∀ node ∈ nodes, ∀ parent i, EntriesPassWords (node.preorder parent i))
    (parent : Option Nat) (i : Nat) : EntriesPassWords (TypeNode.preorderAll parent i nodes) := by
  induction nodes generalizing i with
  | nil => nofun
  | cons node rest inductionHypothesis =>
      intro entry member
      rw [TypeNode.preorderAll] at member
      rcases List.mem_append.mp member with first | later
      · exact each node List.mem_cons_self _ _ entry first
      · exact inductionHypothesis (fun other isOther => each other (List.mem_cons_of_mem _ isOther))
          _ entry later

theorem TypeNode.passesWords_of_decoded {fuel : Nat} {json : Json} {node : TypeNode}
    (decoded : TypeNode.ofJson? fuel json = some node) (parent : Option Nat) (i : Nat) :
    EntriesPassWords (node.preorder parent i) := by
  induction fuel generalizing json node parent i with
  | zero => cases decoded
  | succ fuel inductionHypothesis =>
      rw [TypeNode.ofJson?] at decoded
      obtain ⟨fields, _, decoded⟩ := Option.bind_eq_some_iff.mp decoded
      split at decoded
      · simp only [Option.bind_eq_bind, Option.bind_eq_some_iff] at decoded
        obtain ⟨_, _, _, _, _, _, methods, areMethods, initializers, areInitializers, types,
          areTypes, _, _, decoded⟩ := decoded
        obtain rfl := Option.some.inj decoded
        intro entry member
        rw [TypeNode.preorder] at member
        rcases List.mem_cons.mp member with rfl | nested
        · intro body isBody
          rcases List.mem_append.mp isBody with ofInitializer | ofMethod
          · obtain ⟨initializer, listed, rfl⟩ := List.mem_map.mp ofInitializer
            obtain ⟨_, isInitializer⟩ := exists_of_nodes areInitializers listed
            exact InitializerNode.passesWords_of_decoded isInitializer
          · obtain ⟨method, listed, rfl⟩ := List.mem_map.mp ofMethod
            obtain ⟨_, isMethod⟩ := exists_of_nodes areMethods listed
            exact MethodNode.passesWords_of_decoded isMethod
        · refine entriesPassWords_preorderAll (fun inner listed => ?_) _ _ entry nested
          obtain ⟨_, isInner⟩ := exists_of_nodes areTypes listed
          exact inductionHypothesis isInner
      · cases decoded

/-- All calls of a document that is decoded have numbers of arguments that are words. -/
theorem Document.passesWords_of_decoded {json : Json} {document : Document}
    (decoded : Document.ofJson? json = some document) :
    EntriesPassWords (TypeNode.preorderAll none 0 document.types) := by
  rw [Document.ofJson?] at decoded
  split at decoded
  · cases decoded
  obtain ⟨fields, _, decoded⟩ := Option.bind_eq_some_iff.mp decoded
  split at decoded
  · simp only [Option.bind_eq_bind, Option.bind_eq_some_iff] at decoded
    obtain ⟨_, _, _, _, types, areTypes, decoded⟩ := decoded
    obtain rfl := Option.some.inj decoded
    refine entriesPassWords_preorderAll (fun node listed => ?_) _ _
    obtain ⟨_, isNode⟩ := exists_of_nodes areTypes listed
    exact TypeNode.passesWords_of_decoded isNode
  · cases decoded

/-! ### Files that are read -/

namespace File

variable {file : File} {path text : String} {document : Document}

theorem spreads_passesWords
    (words : EntriesPassWords (TypeNode.preorderAll none 0 document.types)) :
    Spreads document PassesWords where
  declared entry isEntry outline isOutline := passesWords_iff.mpr fun element member => by
    obtain ⟨body, isBody, inBody⟩ := TypeNode.exists_body_of_outline isOutline member
    exact passesWords_iff.mp (words entry isEntry body isBody) element inBody
  inside words listed := (passesWords_iff.mp words _ listed).lambda _ _ _ rfl

/-- The front end takes a text as a description of a file if it is that of a document. -/
theorem exists_document_of_read (read : ofText path text = .ok file) :
    ∃ json document, Document.ofJson? json = some document ∧ ofDocument path document = .ok file := by
  rw [ofText, ofJson] at read
  split at read
  · next document decoded =>
    obtain ⟨json, _, isDocument⟩ := Option.bind_eq_some_iff.mp decoded
    exact ⟨json, document, isDocument, read⟩
  · cases read

/-- Every call of a file that is read has a number of arguments that is a word. -/
theorem arity_lt_of_read (read : ofText path text = .ok file) {call : Handle .invocation}
    (known : call.index < file.invocations.size) :
    (file.invocationAt call).arity < Text.wordLimit := by
  obtain ⟨json, document, decoded, lowered⟩ := exists_document_of_read read
  have words := Document.passesWords_of_decoded decoded
  have formed := (ofDocument_read lowered).reachable.wellFormed
  obtain ⟨around, body, ⟨declared, element⟩, passes, isNumbered, entry, _⟩ :=
    (shows_of_lowered lowered).call_shown formed (spreads_passesWords words) known
  have listed := BodyElement.mem_of_mem_numbered isNumbered
  cases element with
  | call name args base assignTo position =>
      have arity := congrArg Invocation.arity (Option.some.inj entry)
      rw [← arity]
      exact passes args (.here listed)
  | _ => cases entry

end File

end Correlate.Source
