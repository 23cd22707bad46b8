/-
Module: Correlate.Proofs.Compiled.Signatures
Purpose: The id of a method stands for its type and its signature.
Main exports: Signature.Plain, Signature.idIn_injective, Builder.Recorded, Pool.Legible,
  Builder.LookupsAgree, performAll_lookupsAgree
-/
import Correlate.Proofs.Compiled.Contents
import Correlate.Proofs.Compiled.Naming

namespace Correlate.Compiled

/-!
A method id is one text made of a type, a return type, a name and parameter types, with a mark after
each.  While no part contains the mark that ends it, the text can be cut back into its parts.  Types
and methods of a builder are those that steps have added, so if the steps name them in this way,
looking up an id finds the method that comparing signatures finds.
-/

/-! ### Reading ids of methods -/

namespace Signature

/-- No part of the signature contains the mark that ends it in an id, and no parameter type is
empty. -/
structure Plain (signature : Signature) : Prop where
  returnType : ' ' ∉ signature.returnType.toList
  name : '(' ∉ signature.name.toList
  params : ∀ param ∈ signature.params, param ≠ "" ∧ ',' ∉ param.toList

instance (signature : Signature) : Decidable signature.Plain :=
  decidable_of_iff (' ' ∉ signature.returnType.toList ∧ '(' ∉ signature.name.toList ∧
      ∀ param ∈ signature.params, param ≠ "" ∧ ',' ∉ param.toList)
    ⟨fun ⟨returnType, name, params⟩ => ⟨returnType, name, params⟩,
      fun plain => ⟨plain.returnType, plain.name, plain.params⟩⟩

/-- The parameter types as an id lists them. -/
def listing (params : List String) : List Char :=
  [','].intercalate (params.map String.toList)

theorem idIn_toList (owner : String) (signature : Signature) : (signature.idIn owner).toList =
    '<' :: (owner.toList ++ ':' :: ' ' :: (signature.returnType.toList ++ ' ' ::
      (signature.name.toList ++ '(' :: (listing signature.params ++ [')', '>'])))) := by
  change ("<" ++ owner ++ ": " ++ signature.returnType ++ " " ++ signature.name ++ "(" ++
    ",".intercalate signature.params ++ ")>").toList = _
  simp [listing]

/-- A listing that is cut at its commas gives the parameter types back. -/
theorem splitOn_listing {params : List String} (nonempty : params ≠ [])
    (clean : ∀ param ∈ params, ',' ∉ param.toList) :
    (listing params).splitOn ',' = params.map String.toList :=
  List.splitOn_intercalate ',' (by simpa using clean) (by simpa using nonempty)

theorem listing_ne_nil {params : List String} (nonempty : params ≠ [])
    (plain : ∀ param ∈ params, param ≠ "" ∧ ',' ∉ param.toList) : listing params ≠ [] := by
  intro empty
  have cut := splitOn_listing nonempty fun param member => (plain param member).2
  rw [empty, List.splitOn_nil] at cut
  have blank : "" ∈ params := by
    have member : [] ∈ params.map String.toList := cut ▸ List.mem_singleton_self []
    obtain ⟨param, listed, text⟩ := List.mem_map.mp member
    exact String.toList_eq_nil_iff.mp text ▸ listed
  exact (plain "" blank).1 rfl

theorem listing_injective {params params' : List String}
    (plain : ∀ param ∈ params, param ≠ "" ∧ ',' ∉ param.toList)
    (plain' : ∀ param ∈ params', param ≠ "" ∧ ',' ∉ param.toList)
    (same : listing params = listing params') : params = params' := by
  by_cases empty : params = [] <;> by_cases empty' : params' = []
  · rw [empty, empty']
  · exact absurd (by rw [← same, empty]; rfl) (listing_ne_nil empty' plain')
  · exact absurd (by rw [same, empty']; rfl) (listing_ne_nil empty plain)
  · have cut := splitOn_listing empty fun param member => (plain param member).2
    have cut' := splitOn_listing empty' fun param member => (plain' param member).2
    rw [same, cut'] at cut
    exact (List.map_injective_iff.mpr (fun _ _ => String.toList_injective) cut).symm

/-- The id of a method tells its type and its signature. -/
theorem idIn_injective {owner owner' : String} {signature signature' : Signature}
    (named : ':' ∉ owner.toList) (named' : ':' ∉ owner'.toList)
    (plain : signature.Plain) (plain' : signature'.Plain)
    (same : signature.idIn owner = signature'.idIn owner') :
    owner = owner' ∧ signature = signature' := by
  have texts := congrArg String.toList same
  rw [idIn_toList, idIn_toList, List.cons.injEq] at texts
  obtain ⟨owners, afterOwner⟩ := eq_of_first_separator named named' texts.2
  obtain ⟨returnTypes, afterType⟩ :=
    eq_of_first_separator plain.returnType plain'.returnType (List.cons.inj afterOwner).2
  obtain ⟨names, listings⟩ := eq_of_first_separator plain.name plain'.name afterType
  have params := listing_injective plain.params plain'.params (List.append_cancel_right listings)
  obtain ⟨name, returnType, _⟩ := signature
  obtain ⟨name', returnType', _⟩ := signature'
  obtain rfl : name = name' := String.toList_injective names
  obtain rfl : returnType = returnType' := String.toList_injective returnTypes
  exact ⟨String.toList_injective owners, congrArg _ params⟩

end Signature

/-! ### What steps have added -/

/-- The ids of the types of a pool. -/
def Pool.typeIds (pool : Pool) : List String :=
  pool.types.toList.map TypeDecl.id

/-- What a method says besides its body and its modifiers: its type, its signature and its id. -/
def Method.heading (method : Method) : Handle .type × Signature × String :=
  (method.declaring, method.signature, method.id)

def Pool.headings (pool : Pool) : List (Handle .type × Signature × String) :=
  pool.methods.toList.map Method.heading

/-- The types and methods of a builder are those that the steps have added. -/
structure Builder.Recorded (done : List Step) (builder : Builder) : Prop where
  type_added : ∀ id ∈ builder.pool.typeIds, Step.type id ∈ done
  method_added : ∀ owner signature id, (owner, signature, id) ∈ builder.pool.headings →
    (∃ modifiers, Step.method owner signature modifiers ∈ done) ∧
      ∃ name, builder.pool.typeIds[owner.index]? = some name ∧ id = signature.idIn name
  method_found : ∀ owner signature modifiers, Step.method owner signature modifiers ∈ done →
    ∃ name method, builder.pool.typeIds[owner.index]? = some name ∧
      builder.pool.methodNamed? (signature.idIn name) = some method

namespace Builder

variable {builder later : Builder} {done : List Step}

theorem typeIds_changeType (owner : Handle .type) {change : TypeDecl → TypeDecl}
    (kept : ∀ type, (change type).id = type.id) :
    (builder.changeType owner change).pool.typeIds = builder.pool.typeIds :=
  map_toList_modify _ _ kept

theorem headings_changeMethod (method : Handle .method) {change : Method → Method}
    (kept : ∀ record, (change record).heading = record.heading) :
    (builder.changeMethod method change).pool.headings = builder.pool.headings :=
  map_toList_modify _ _ kept

theorem typeIds_getElem? {type : Handle .type} (known : type.index < builder.pool.types.size) :
    builder.pool.typeIds[type.index]? = some (builder.pool.typeAt type).id := by
  simp [Pool.typeIds, Pool.typeAt, known]

theorem typeIds_pushType (builder : Builder) (id : String) :
    (builder.pushType id).pool.typeIds = builder.pool.typeIds ++ [id] := by
  simp [Pool.typeIds, pushType, withPool]

section PushMethod

variable (builder : Builder) (owner : Handle .type) (signature : Signature) (modifiers : Modifiers)

theorem typeIds_pushMethod :
    (builder.pushMethod owner signature modifiers).pool.typeIds = builder.pool.typeIds :=
  map_toList_modify _ _ fun _ => rfl

theorem headings_pushMethod : (builder.pushMethod owner signature modifiers).pool.headings =
    builder.pool.headings ++
      [(owner, signature, signature.idIn (builder.pool.typeAt owner).id)] := by
  simp [Pool.headings, pushMethod, changeType, withPool, newMethod, Method.heading]

theorem methodNamed?_pushMethod (id : String) :
    (builder.pushMethod owner signature modifiers).pool.methodNamed? id =
      if signature.idIn (builder.pool.typeAt owner).id = id
      then some ⟨builder.pool.methods.size⟩ else builder.pool.methodNamed? id := by
  simp [Pool.methodNamed?, pushMethod, changeType, withPool, newMethod,
    Std.TreeMap.getElem?_insert]

end PushMethod

namespace Recorded

theorem empty : ({} : Builder).Recorded [] where
  type_added := nofun
  method_added := nofun
  method_found := nofun

/-! What has been added stays so when a step follows. -/

theorem type_before (recorded : builder.Recorded done) {step : Step} {id : String}
    (member : id ∈ builder.pool.typeIds) : Step.type id ∈ done ++ [step] :=
  List.mem_append_left _ (recorded.type_added id member)

theorem method_before (recorded : builder.Recorded done) {step : Step} {owner : Handle .type}
    {signature : Signature} {id : String}
    (member : (owner, signature, id) ∈ builder.pool.headings) :
    (∃ modifiers, Step.method owner signature modifiers ∈ done ++ [step]) ∧
      ∃ name, builder.pool.typeIds[owner.index]? = some name ∧ id = signature.idIn name := by
  obtain ⟨⟨modifiers, added⟩, named⟩ := recorded.method_added owner signature id member
  exact ⟨⟨modifiers, List.mem_append_left _ added⟩, named⟩

/-- A step that adds neither a type nor a method. -/
theorem quiet (recorded : builder.Recorded done) {step : Step}
    (no_method : ∀ owner signature modifiers, step ≠ .method owner signature modifiers)
    (typeIds_kept : later.pool.typeIds = builder.pool.typeIds)
    (headings_kept : later.pool.headings = builder.pool.headings)
    (index_kept : later.pool.methodIndex = builder.pool.methodIndex) :
    later.Recorded (done ++ [step]) where
  type_added id member := by
    rw [typeIds_kept] at member
    exact recorded.type_before member
  method_added owner signature id member := by
    rw [headings_kept] at member
    rw [typeIds_kept]
    exact recorded.method_before member
  method_found owner signature modifiers member := by
    have lookup_kept (id : String) : later.pool.methodNamed? id = builder.pool.methodNamed? id := by
      rw [Pool.methodNamed?, index_kept, Pool.methodNamed?]
    simp only [typeIds_kept, lookup_kept]
    rcases List.mem_append.mp member with earlier | now
    · exact recorded.method_found owner signature modifiers earlier
    · exact absurd (List.mem_singleton.mp now).symm (no_method owner signature modifiers)

theorem pushType (recorded : builder.Recorded done) (id : String) :
    (builder.pushType id).Recorded (done ++ [.type id]) := by
  have kept {i : Nat} {name : String} (named : builder.pool.typeIds[i]? = some name) :
      (builder.pushType id).pool.typeIds[i]? = some name := by
    rw [typeIds_pushType, List.getElem?_append_left (List.getElem?_eq_some_iff.mp named).1]
    exact named
  constructor
  case type_added =>
    intro name member
    rw [typeIds_pushType] at member
    rcases List.mem_append.mp member with old | new
    · exact recorded.type_before old
    · rw [List.mem_singleton.mp new]
      exact List.mem_append_right _ (List.mem_singleton_self _)
  case method_added =>
    intro owner signature methodId member
    obtain ⟨added, name, named, same⟩ := recorded.method_before member
    exact ⟨added, name, kept named, same⟩
  case method_found =>
    intro owner signature modifiers member
    have earlier : Step.method owner signature modifiers ∈ done := by simpa using member
    obtain ⟨name, method, named, isMethod⟩ :=
      recorded.method_found owner signature modifiers earlier
    exact ⟨name, method, kept named, isMethod⟩

theorem addType (recorded : builder.Recorded done) (id : String) :
    (builder.addType id).1.Recorded (done ++ [.type id]) := by
  cases found : builder.pool.typeNamed? id with
  | some type =>
      rw [addType_of_known found]
      exact recorded.quiet nofun rfl rfl rfl
  | none =>
      rw [addType_of_unknown found]
      exact recorded.pushType id

section AddMethod

variable {owner : Handle .type} {signature : Signature}

theorem pushMethod (recorded : builder.Recorded done)
    (known : owner.index < builder.pool.types.size) (modifiers : Modifiers) :
    (builder.pushMethod owner signature modifiers).Recorded
      (done ++ [.method owner signature modifiers]) := by
  have owner_named := typeIds_getElem? known
  constructor
  case type_added =>
    rw [typeIds_pushMethod]
    exact fun id => recorded.type_before
  case method_added =>
    intro other told id member
    rw [typeIds_pushMethod]
    rw [headings_pushMethod] at member
    rcases List.mem_append.mp member with old | new
    · exact recorded.method_before old
    · obtain ⟨rfl, rfl, rfl⟩ : other = owner ∧ told = signature ∧ id = _ := by simpa using new
      exact ⟨⟨modifiers, List.mem_append_right _ (List.mem_singleton_self _)⟩, _, owner_named, rfl⟩
  case method_found =>
    intro other told given member
    rw [typeIds_pushMethod]
    simp only [methodNamed?_pushMethod]
    rcases List.mem_append.mp member with earlier | now
    · obtain ⟨name, method, named, isMethod⟩ := recorded.method_found other told given earlier
      refine ⟨name, ?_⟩
      split
      · exact ⟨_, named, rfl⟩
      · exact ⟨method, named, isMethod⟩
    · obtain ⟨rfl, rfl, rfl⟩ := Step.method.inj (List.mem_singleton.mp now)
      exact ⟨_, _, owner_named, if_pos rfl⟩

/-- A step that adds a method that is there. -/
theorem known_method (recorded : builder.Recorded done)
    (known : owner.index < builder.pool.types.size) {method : Handle .method}
    (found : builder.pool.methodNamed?
      (signature.idIn (builder.pool.typeAt owner).id) = some method)
    (modifiers : Modifiers) :
    builder.Recorded (done ++ [.method owner signature modifiers]) where
  type_added _ := recorded.type_before
  method_added _ _ _ := recorded.method_before
  method_found other told given member := by
    rcases List.mem_append.mp member with earlier | now
    · exact recorded.method_found other told given earlier
    · obtain ⟨rfl, rfl, rfl⟩ := Step.method.inj (List.mem_singleton.mp now)
      exact ⟨_, method, typeIds_getElem? known, found⟩

theorem addMethod (recorded : builder.Recorded done)
    (known : owner.index < builder.pool.types.size) (modifiers : Modifiers) :
    (builder.addMethod owner signature modifiers).1.Recorded
      (done ++ [.method owner signature modifiers]) := by
  cases found : builder.pool.methodNamed? (signature.idIn (builder.pool.typeAt owner).id) with
  | some method =>
      rw [addMethod_of_known found]
      exact recorded.known_method known found modifiers
  | none =>
      rw [addMethod_of_unknown found]
      exact recorded.pushMethod known modifiers

end AddMethod

theorem perform (recorded : builder.Recorded done) {step : Step} (known : step.Known builder.pool) :
    (builder.perform step).1.Recorded (done ++ [step]) := by
  cases step with
  | type id => exact recorded.addType id
  | method owner signature modifiers => exact recorded.addMethod known modifiers
  | typeLine owner | typeModifiers owner | superType owner | annotate owner
  | referencedType owner | field owner =>
      exact recorded.quiet nofun (typeIds_changeType owner fun _ => rfl) rfl rfl
  | methodLine method | invocation method | allocation method | fieldAccess method
  | methodRef method | cast method | lambda method =>
      exact recorded.quiet nofun rfl (headings_changeMethod method fun _ => rfl) rfl

theorem performAll (recorded : builder.Recorded done) {steps : List Step}
    (admitted : builder.Admits steps) : (builder.performAll steps).1.Recorded (done ++ steps) := by
  induction steps generalizing builder done with
  | nil => rwa [List.append_nil]
  | cons step rest inductionHypothesis =>
      have grown := inductionHypothesis (recorded.perform admitted.1) admitted.2
      rwa [List.append_assoc, List.singleton_append] at grown

end Recorded

end Builder

/-! ### Looking up methods -/

/-- What the step names can be read back from an id. -/
def Step.Plain : Step → Prop
  | .type id => ':' ∉ id.toList
  | .method _ signature _ => signature.Plain
  | _ => True

/-- The id of a method is made of its type and its signature, and these can be read back from it. -/
structure Pool.Legible (pool : Pool) : Prop where
  typeId : ∀ type : Handle .type, type.index < pool.types.size →
    ':' ∉ (pool.typeAt type).id.toList
  signature : ∀ method : Handle .method, method.index < pool.methods.size →
    (pool.methodAt method).signature.Plain
  methodId : ∀ method : Handle .method, method.index < pool.methods.size →
    (pool.methodAt method).id =
      (pool.methodAt method).signature.idIn (pool.typeAt (pool.methodAt method).declaring).id

namespace Builder

variable {builder : Builder} {done : List Step}

namespace Recorded

theorem heading_mem {method : Handle .method} (known : method.index < builder.pool.methods.size) :
    (builder.pool.methodAt method).heading ∈ builder.pool.headings :=
  List.mem_map_of_mem (Array.mem_toList_iff.mpr (Array.mem_of_getElem? (found_of_known known)))

theorem legible (recorded : builder.Recorded done) (plain : ∀ step ∈ done, step.Plain) :
    builder.pool.Legible where
  typeId type known :=
    plain _ (recorded.type_added _ (List.mem_of_getElem? (typeIds_getElem? known)))
  signature method known := by
    obtain ⟨⟨modifiers, added⟩, -⟩ := recorded.method_added _ _ _ (heading_mem known)
    exact plain _ added
  methodId method known := by
    obtain ⟨-, name, named, same⟩ := recorded.method_added _ _ _ (heading_mem known)
    have declared : (builder.pool.methodAt method).declaring.index < builder.pool.types.size := by
      simpa [Pool.typeIds] using (List.getElem?_eq_some_iff.mp named).1
    rw [typeIds_getElem? declared, Option.some.injEq] at named
    rw [named, same]

end Recorded

end Builder

namespace Pool

variable {pool : Pool} {owner : Handle .type} {signature : Signature}
  {method other : Handle .method}

theorem WellFormed.mem_methods_iff (formed : pool.WellFormed) :
    method ∈ (pool.typeAt owner).methods ↔
      method.index < pool.methods.size ∧ (pool.methodAt method).declaring = owner := by
  rw [← List.mem_map_of_injective Handle.index_injective]
  exact (formed.methods_listsExactly owner).2 method.index

namespace Legible

/-- Methods of one type with one signature have the same id. -/
theorem unique (legible : pool.Legible) (formed : pool.WellFormed)
    (listed : method ∈ (pool.typeAt owner).methods) (listed' : other ∈ (pool.typeAt owner).methods)
    (same : (pool.methodAt method).signature = (pool.methodAt other).signature) :
    method = other := by
  obtain ⟨known, declared⟩ := formed.mem_methods_iff.mp listed
  obtain ⟨known', declared'⟩ := formed.mem_methods_iff.mp listed'
  apply formed.methods_named.unique known known'
  change (pool.methodAt method).id = (pool.methodAt other).id
  rw [legible.methodId method known, legible.methodId other known', declared, declared', same]

/-- The method of an id is the one of that type and signature. -/
theorem methodNamed?_iff (legible : pool.Legible) (formed : pool.WellFormed)
    (known : owner.index < pool.types.size) (plain : signature.Plain) :
    pool.methodNamed? (signature.idIn (pool.typeAt owner).id) = some method ↔
      method ∈ (pool.typeAt owner).methods ∧ (pool.methodAt method).signature = signature := by
  rw [formed.mem_methods_iff, methodNamed?, formed.methods_named.find_iff]
  change _ ∧ (pool.methodAt method).id = _ ↔ _
  constructor
  · rintro ⟨isMethod, same⟩
    have declared : (pool.methodAt method).declaring.index < pool.types.size :=
      formed.methods.known (found_of_known isMethod) rfl
    rw [legible.methodId method isMethod] at same
    obtain ⟨owners, signatures⟩ := Signature.idIn_injective (legible.typeId _ declared)
      (legible.typeId _ known) (legible.signature method isMethod) plain same
    exact ⟨⟨isMethod, formed.types_named.unique declared known owners⟩, signatures⟩
  · rintro ⟨⟨isMethod, rfl⟩, rfl⟩
    exact ⟨isMethod, legible.methodId method isMethod⟩

/-- Only one method can be the first of a type with a given signature. -/
theorem findMethod?_iff (legible : pool.Legible) (formed : pool.WellFormed) :
    pool.findMethod? owner signature = some method ↔
      method ∈ (pool.typeAt owner).methods ∧ (pool.methodAt method).signature = signature := by
  constructor
  · intro found
    exact ⟨List.mem_of_find?_eq_some found, by simpa using List.find?_some found⟩
  · rintro ⟨listed, rfl⟩
    cases found : pool.findMethod? owner (pool.methodAt method).signature with
    | none => exact absurd (List.find?_eq_none.mp found method listed) (by simp)
    | some first =>
        have same : (pool.methodAt first).signature = (pool.methodAt method).signature := by
          simpa using List.find?_some found
        rw [legible.unique formed (List.mem_of_find?_eq_some found) listed same]

theorem methodNamed?_eq_findMethod? (legible : pool.Legible) (formed : pool.WellFormed)
    (known : owner.index < pool.types.size) (plain : signature.Plain) :
    pool.methodNamed? (signature.idIn (pool.typeAt owner).id) =
      pool.findMethod? owner signature := by
  ext method
  rw [legible.methodNamed?_iff formed known plain, legible.findMethod?_iff formed]

end Legible

end Pool

/-- What is looked up by an id is what is looked up by a type and a signature. -/
structure Builder.LookupsAgree (steps : List Step) (builder : Builder) : Prop where
  named_eq_find : ∀ (owner : Handle .type) (signature : Signature),
    owner.index < builder.finish.pool.types.size → signature.Plain →
    builder.finish.pool.methodNamed?
        (signature.idIn (builder.finish.pool.typeAt owner).id) =
      builder.finish.pool.findMethod? owner signature
  /-- Adding a method answers the one of its type and signature if there is one. -/
  answer : ∀ (owner : Handle .type) (signature : Signature) (modifiers : Modifiers),
    owner.index < builder.pool.types.size → signature.Plain →
    (builder.addMethod owner signature modifiers).2 =
      (builder.pool.findMethod? owner signature).getD ⟨builder.pool.methods.size⟩
  /-- There is one exactly when a step has added it. -/
  added_before : ∀ (owner : Handle .type) (signature : Signature) (modifiers : Modifiers),
    owner.index < builder.pool.types.size → signature.Plain →
    ((builder.addMethod owner signature modifiers).2.index < builder.pool.methods.size ↔
      ∃ earlier, Step.method owner signature earlier ∈ steps)
  /-- A type has one method for each signature that its methods have. -/
  signatures_nodup : ∀ owner : Handle .type,
    ((builder.finish.pool.typeAt owner).methods.map fun method =>
      (builder.finish.pool.methodAt method).signature).Nodup

namespace Builder

variable {builder : Builder} {done : List Step} {owner : Handle .type} {signature : Signature}

theorem addMethod_answer (owner : Handle .type) (signature : Signature) (modifiers : Modifiers) :
    (builder.addMethod owner signature modifiers).2 =
      (builder.pool.methodNamed? (signature.idIn (builder.pool.typeAt owner).id)).getD
        ⟨builder.pool.methods.size⟩ := by
  cases found : builder.pool.methodNamed? (signature.idIn (builder.pool.typeAt owner).id) with
  | some method => rw [addMethod_of_known found]; rfl
  | none => rw [addMethod_of_unknown found]; rfl

/-- A method is found exactly when a step has added one of its type and signature. -/
theorem Recorded.exists_methodNamed?_iff (recorded : builder.Recorded done)
    (legible : builder.pool.Legible) (formed : builder.pool.WellFormed)
    (known : owner.index < builder.pool.types.size) (plain : signature.Plain) :
    (∃ method, builder.pool.methodNamed?
        (signature.idIn (builder.pool.typeAt owner).id) = some method) ↔
      ∃ modifiers, Step.method owner signature modifiers ∈ done := by
  constructor
  · rintro ⟨method, found⟩
    obtain ⟨listed, rfl⟩ := (legible.methodNamed?_iff formed known plain).mp found
    obtain ⟨isMethod, rfl⟩ := formed.mem_methods_iff.mp listed
    exact (recorded.method_added _ _ _ (heading_mem isMethod)).1
  · rintro ⟨modifiers, added⟩
    obtain ⟨name, method, named, found⟩ := recorded.method_found _ _ _ added
    rw [typeIds_getElem? known, Option.some.injEq] at named
    exact ⟨method, named ▸ found⟩

/-- Whatever is added in whatever order, ids and signatures find the same methods. -/
theorem performAll_lookupsAgree {steps : List Step} (admitted : ({} : Builder).Admits steps)
    (plain : ∀ step ∈ steps, step.Plain) :
    (({} : Builder).performAll steps).1.LookupsAgree steps := by
  have formed := Pool.WellFormed.of_reachable (Reachable.empty.performAll admitted)
  have recorded := Recorded.empty.performAll admitted
  rw [List.nil_append] at recorded
  generalize (({} : Builder).performAll steps).1 = builder at formed recorded
  have legible := recorded.legible plain
  constructor
  case named_eq_find =>
    exact fun owner signature known signaturePlain =>
      legible.methodNamed?_eq_findMethod? formed known signaturePlain
  case answer =>
    intro owner signature modifiers known signaturePlain
    rw [addMethod_answer, legible.methodNamed?_eq_findMethod? formed known signaturePlain]
  case added_before =>
    intro owner signature modifiers known signaturePlain
    rw [← recorded.exists_methodNamed?_iff legible formed known signaturePlain, addMethod_answer]
    cases found : builder.pool.methodNamed? (signature.idIn (builder.pool.typeAt owner).id) with
    | some method => simpa using ((formed.methods_named.find_iff _ _).mp found).1
    | none => simp
  case signatures_nodup =>
    intro owner
    have methods_nodup : (builder.pool.typeAt owner).methods.Nodup :=
      (formed.methods_listsExactly owner).1.nodup.of_map _
    exact methods_nodup.map_on fun method listed other listed' =>
      legible.unique formed listed listed'

end Builder

/-- Two types with methods of one name, of which one is added again. -/
def overloadSteps : List Step :=
  let method (params : List String) : Signature := { name := "m", params, returnType := "void" }
  [.type "a.B", .type "a.C", .method ⟨0⟩ (method []) [], .method ⟨0⟩ (method ["int", "int[]"]) [],
    .method ⟨1⟩ (method []) [.static], .method ⟨0⟩ (method []) [.final]]

theorem lookupsAgree_overloadSteps : ({} : Builder).Admits overloadSteps ∧
    (∀ step ∈ overloadSteps, step.Plain) ∧
    (({} : Builder).performAll overloadSteps).1.LookupsAgree overloadSteps ∧
    (({} : Builder).performAll overloadSteps).1.pool.methods.size = 3 := by
  have admitted : ({} : Builder).Admits overloadSteps :=
    ⟨trivial, trivial, Nat.zero_lt_succ _, Nat.zero_lt_succ _, Nat.lt_succ_self _,
      Nat.zero_lt_succ _, trivial⟩
  have plain : ∀ step ∈ overloadSteps, step.Plain := by
    simp only [overloadSteps, List.forall_mem_cons, Step.Plain, List.not_mem_nil,
      IsEmpty.forall_iff, implies_true]
    decide
  exact ⟨admitted, plain, Builder.performAll_lookupsAgree admitted plain, by decide +kernel⟩

end Correlate.Compiled
