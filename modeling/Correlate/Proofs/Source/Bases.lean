/-
Module: Correlate.Proofs.Source.Bases
Purpose: The variables that calls are made on belong to the methods around the calls.
Main exports: File.BasesInScope, File.Shows.body_shown, File.Shows.call_shown,
  File.basesInScope_of_lowered, File.authoritative_of_lowered
-/
import Correlate.Proofs.Source.Nesting
import Correlate.Proofs.Source.Ownership

namespace Correlate.Source.File

/-!
A name in a body denotes what the method or one around it has declared.  So a lambda may call a method
on a variable of the method around it, but no method calls one on a variable of a lambda inside it.
-/

/-- Every variable that a call is made on belongs to the method of the call or to one around it. -/
def BasesInScope (file : File) : Prop :=
  ∀ call base, (file.invocationAt call).base = some base →
    ∃ holder, file.owningMethod? base.ref = some holder ∧
      file.Within holder (file.invocationAt call).method

variable {file : File} {path : String} {document : Document} {method : Handle .method}

/-- What holds of the bodies of a document holds of the bodies of the lambdas in them. -/
structure Spreads (document : Document) (property : List BodyElement → Prop) : Prop where
  declared : ∀ entry ∈ TypeNode.preorderAll none 0 document.types, ∀ outline ∈ entry.2.outlines,
    property outline.body
  inside : ∀ {body params inner position}, property body →
    BodyElement.lambda params inner position ∈ body → property inner

theorem Spreads.any (document : Document) : Spreads document fun _ => True where
  declared _ _ _ _ := trivial
  inside _ _ := trivial

/-- Every method of a file that shows a document has the elements of a body, and what is around the
body are the methods around the method. -/
theorem Shows.body_shown (shows : file.Shows path document) (formed : file.WellFormed)
    {property : List BodyElement → Prop} (spreads : Spreads document property)
    (known : method.index < file.methods.size) :
    ∃ around body, file.BodyShown around method body ∧ property body ∧
      ∀ frame ∈ around, file.Within frame.method method := by
  -- The method around a lambda comes before it.
  generalize place : method.index = i at known
  induction i using Nat.strongRecOn generalizing method with
  | _ i inductionHypothesis =>
      subst place
      cases inside : (file.methodAt method).parent with
      | none =>
          have declared : (file.methodAt method).kind ≠ .lambda := by
            simp [(formed.shape known).inside, inside]
          obtain ⟨entry, isEntry, outline, isOutline, shown⟩ :=
            shows.method_shown (formed.listed_of_method known declared)
          exact ⟨[], outline.body, shown.body, spreads.declared entry isEntry outline isOutline, nofun⟩
      | some outer =>
          have before := formed.parent_lt inside
          obtain ⟨around, body, shown, holds, within⟩ :=
            inductionHypothesis outer.index before rfl (Nat.lt_trans before known)
          obtain ⟨_, lambdas_length, _, bodies⟩ := shown
          obtain ⟨n, node, lambdaPlace, nodePlace⟩ :=
            exists_of_length_eq lambdas_length (formed.mem_lambdas.mpr ⟨known, inside⟩)
          have isLambda := LambdaNode.mem_of_numbered (List.mem_of_getElem? nodePlace)
          refine ⟨_, node.body, bodies n method node lambdaPlace nodePlace,
            spreads.inside holds isLambda, fun frame member => ?_⟩
          rcases List.mem_cons.mp member with rfl | further
          · exact .single inside
          · exact (within frame further).tail inside

/-- Every element in a body of a file that shows a document is one of a body. -/
theorem Shows.entry_shown (shows : file.Shows path document) (formed : file.WellFormed)
    {property : List BodyElement → Prop} (spreads : Spreads document property) {part : Part}
    (inBody : part.inBody = true) {i : Nat} {entry : part.Entry}
    (found : (part.table file)[i]? = some entry) (owned : part.owner entry = some method.index) :
    ∃ around body numbered, property body ∧ numbered ∈ BodyElement.numbered 0 body ∧
      part.entry? file around method numbered = some entry ∧
      ∀ frame ∈ around, file.Within frame.method method := by
  have unlisted : part.list (default : Method) = [] := by cases part <;> rfl
  have listed : i ∈ part.list (file.methodAt method) :=
    ((formed.parts part).mem_getD_iff unlisted).mpr ⟨entry, found, owned⟩
  obtain ⟨around, body, ⟨elements, _, _, _⟩, holds, within⟩ :=
    shows.body_shown formed spreads ((formed.parts part).known found owned)
  have isEntry : some entry ∈ part.entries file method :=
    List.mem_map.mpr ⟨i, listed, found⟩
  rw [elements part inBody] at isEntry
  obtain ⟨shown, isShown, same⟩ := List.mem_map.mp isEntry
  obtain rfl := Option.some.inj same
  obtain ⟨numbered, isNumbered, told⟩ := List.mem_filterMap.mp isShown
  exact ⟨around, body, numbered, holds, isNumbered, told, within⟩

/-- Every call of a file that shows a document is one of a body. -/
theorem Shows.call_shown (shows : file.Shows path document) (formed : file.WellFormed)
    {property : List BodyElement → Prop} (spreads : Spreads document property)
    {call : Handle .invocation} (known : call.index < file.invocations.size) :
    ∃ around body numbered, property body ∧ numbered ∈ BodyElement.numbered 0 body ∧
      Part.invocation.entry? file around (file.invocationAt call).method numbered =
        some (file.invocationAt call) ∧
      ∀ frame ∈ around, file.Within frame.method (file.invocationAt call).method := by
  have found : (Part.invocation.table file)[call.index]? = some (file.invocationAt call) := by
    rw [invocationAt, Array.getElem?_eq_getElem known, Option.getD_some]
    exact Array.getElem?_eq_getElem known
  exact shows.entry_shown formed spreads rfl found rfl

/-- What a method has declared belongs to it. -/
theorem WellFormed.owner_of_declaredVariable (formed : file.WellFormed) {name : String}
    {frame : Frame} {found : Handle .variable}
    (declared : file.declaredVariable? name frame = some found) :
    file.owningMethod? found.ref = some frame.method := by
  have owner (part : Part) (isKind : part.kind = .variable)
      (listed : found.index ∈ part.list (file.methodAt frame.method)) :
      file.owningMethod? found.ref = some frame.method := by
    have owned := (formed.owner_of_listed part listed).2
    rwa [isKind] at owned
  unfold declaredVariable? at declared
  dsimp only at declared
  split at declared
  · exact owner .receiver rfl (List.mem_map_of_mem (Option.mem_toList.mpr declared))
  · rcases List.mem_append.mp (List.mem_of_find?_eq_some declared) with isLocal | isParam
    · have listed := List.mem_of_mem_take (List.mem_reverse.mp isLocal)
      exact owner .localVariable rfl (List.mem_map_of_mem listed)
    · exact owner .parameter rfl (List.mem_map_of_mem isParam)

/-- What a call of a shown body is made on is in scope. -/
theorem base_of_entry {around : List Frame} {numbered : Nat × BodyElement} {call : Invocation}
    (entry : Part.invocation.entry? file around method numbered = some call)
    {base : Handle .variable} (isBase : call.base = some base) :
    ∃ declared name, file.scopedVariable? (⟨method, declared⟩ :: around) name = some base := by
  obtain ⟨declared, element⟩ := numbered
  cases element with
  | call name args named assignTo position =>
      obtain rfl := Option.some.inj entry
      obtain ⟨name, _, found⟩ := Option.bind_eq_some_iff.mp isBase
      exact ⟨declared, name, found⟩
  | _ => cases entry

/-- In a file that shows a document, calls are made on variables in scope. -/
theorem Shows.basesInScope (shows : file.Shows path document) (formed : file.WellFormed) :
    file.BasesInScope := by
  intro call base isBase
  have known : call.index < file.invocations.size := by
    by_contra unknown
    rw [invocationAt, Array.getElem?_eq_none (Nat.le_of_not_lt unknown)] at isBase
    cases isBase
  obtain ⟨around, _, numbered, _, _, entry, within⟩ := shows.call_shown formed (.any document) known
  obtain ⟨declared, name, denoted⟩ := base_of_entry entry isBase
  obtain ⟨frame, isFrame, holds⟩ := List.exists_of_findSome?_eq_some denoted
  refine ⟨frame.method, formed.owner_of_declaredVariable holds, ?_⟩
  rcases List.mem_cons.mp isFrame with rfl | outer
  · exact .refl
  · exact within frame outer

/-- In a file that is read from a document, calls are made on variables in scope. -/
theorem basesInScope_of_lowered (lowered : ofDocument path document = .ok file) :
    file.BasesInScope :=
  (shows_of_lowered lowered).basesInScope (ofDocument_read lowered).reachable.wellFormed

/-! ### What is read -/

/-- A field of a file that shows a document is one of a type. -/
theorem Shows.field_authoritative (shows : file.Shows path document) (formed : file.WellFormed)
    {i : Nat} {field : Field} (found : file.fields[i]? = some field) : field.authoritative = true := by
  have known := formed.fields.known found rfl
  have listed : i ∈ (file.typeAt field.declaring).fields.map Handle.index :=
    (formed.fields.mem_getD_iff rfl).mpr ⟨field, found, rfl⟩
  rw [shows.types_size] at known
  have shown := shows.types _ _ _ (List.getElem?_eq_getElem known)
  obtain ⟨own, isOwn, rfl⟩ := List.mem_map.mp listed
  have isField : some field ∈
      (file.typeAt field.declaring).fields.map fun own => file.fields[own.index]? :=
    List.mem_map.mpr ⟨own, isOwn, found⟩
  rw [shown.fields] at isField
  obtain ⟨node, _, same⟩ := List.mem_map.mp isField
  rw [← Option.some.inj same]

/-- Nothing in a file that is read from a document stands in for anything. -/
theorem authoritative_of_lowered (lowered : ofDocument path document = .ok file) (element : Ref)
    (known : element.index < file.count element.kind) : file.isAuthoritative element = true := by
  have shows := shows_of_lowered lowered
  have formed := (ofDocument_read lowered).reachable.wellFormed
  refine authoritative_of_entries ?fields ?invocations ?allocations element known
  case fields =>
    intro field member
    obtain ⟨_, found⟩ := Array.mem_iff_getElem?.mp member
    exact shows.field_authoritative formed found
  case invocations =>
    intro call member
    obtain ⟨i, found⟩ : ∃ i : Nat, (Part.invocation.table file)[i]? = some call :=
      Array.mem_iff_getElem?.mp member
    obtain ⟨_, _, ⟨declared, shown⟩, _, _, entry, _⟩ :=
      shows.entry_shown formed (.any document) rfl found rfl
    cases shown with
    | call => rw [← Option.some.inj entry]
    | _ => cases entry
  case allocations =>
    intro allocation member
    obtain ⟨i, found⟩ : ∃ i : Nat, (Part.allocation.table file)[i]? = some allocation :=
      Array.mem_iff_getElem?.mp member
    obtain ⟨_, _, ⟨declared, shown⟩, _, _, entry, _⟩ :=
      shows.entry_shown formed (.any document) rfl found rfl
    cases shown with
    | new => rw [← Option.some.inj entry]
    | _ => cases entry

end Correlate.Source.File
