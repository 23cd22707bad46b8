/-
Module: Correlate.Proofs.Compiled.Naming
Purpose: No two elements of compiled code share an id.
Main exports: bodyId, Builder.Numbered, ids_distinct
-/
import Correlate.Proofs.Compiled.Slots
import Correlate.Proofs.Spelling

namespace Correlate.Compiled

/-!
The id of an element of a body ends with the number that its key had when it was added.  A number has
no slash in it, so the last slash of an id tells the key from the number, whatever names the key is
made of; and as long as the ids of methods have no slash, the first one tells the method.
-/

/-! ### Reading ids -/

/-- The id of an element of a body. -/
def bodyId (methodId key : String) (n : Nat) : String :=
  s!"{methodId}/{key}/{n}"

theorem bodyId_toList (methodId key : String) (n : Nat) :
    (bodyId methodId key n).toList =
      methodId.toList ++ '/' :: (key.toList ++ '/' :: Nat.toDigits 10 n) := by
  change (methodId ++ "/" ++ key ++ "/" ++ toString n).toList = _
  simp [Nat.toString_eq_repr]

theorem slash_not_mem_toDigits (n : Nat) : '/' ∉ Nat.toDigits 10 n := by
  intro member
  have digit := Nat.isDigit_of_mem_toDigits (by decide) (by decide) member
  exact absurd digit (by decide)

theorem toDigits_injective {n n' : Nat} (same : Nat.toDigits 10 n = Nat.toDigits 10 n') : n = n' := by
  have numbers := congrArg (Nat.ofDigitChars 10 · 0) same
  simpa using numbers

theorem variableId_toList (methodId : String) (slot : MethodSlot) :
    (slot.variableId methodId).toList = methodId.toList ++ '/' :: slot.segment.toList := by
  simp [MethodSlot.variableId]

theorem slash_not_mem_segment (slot : MethodSlot) : '/' ∉ slot.segment.toList := by
  cases slot with
  | receiver => decide
  | parameter index =>
      simp [MethodSlot.segment, ReservedName.parameterLead, Nat.toString_eq_repr, slash_not_mem_toDigits]

section Cutting

variable {α : Type} [DecidableEq α] {separator : α} {front front' back back' : List α}

/-- What stands before the first separator. -/
theorem eq_of_first_separator (clean : separator ∉ front) (clean' : separator ∉ front')
    (same : front ++ separator :: back = front' ++ separator :: back') :
    front = front' ∧ back = back' := by
  obtain ⟨fronts, -, backs⟩ := Text.eq_of_first_stop (p := fun c => decide (c = separator))
    (fun c member => decide_eq_false fun found => clean (found ▸ member))
    (fun c member => decide_eq_false fun found => clean' (found ▸ member))
    (decide_eq_true rfl) (decide_eq_true rfl) same
  exact ⟨fronts, backs⟩

/-- What stands after the last separator. -/
theorem eq_of_last_separator (clean : separator ∉ back) (clean' : separator ∉ back')
    (same : front ++ separator :: back = front' ++ separator :: back') :
    front = front' ∧ back = back' := by
  have flipped := congrArg List.reverse same
  simp only [List.reverse_append, List.reverse_cons, List.append_assoc, List.singleton_append]
    at flipped
  have parts := eq_of_first_separator (by simpa using clean) (by simpa using clean') flipped
  exact ⟨List.reverse_injective parts.2, List.reverse_injective parts.1⟩

end Cutting

theorem bodyId_injective {methodId key key' : String} {n n' : Nat}
    (same : bodyId methodId key n = bodyId methodId key' n') : key = key' ∧ n = n' := by
  have texts := congrArg String.toList same
  rw [bodyId_toList, bodyId_toList, List.append_cancel_left_eq, List.cons.injEq] at texts
  have parts := eq_of_last_separator (slash_not_mem_toDigits n) (slash_not_mem_toDigits n') texts.2
  exact ⟨String.toList_injective parts.1, toDigits_injective parts.2⟩

theorem segment_toList_parameter (index : Nat) : (MethodSlot.parameter index).segment.toList =
    ReservedName.parameterLead.toList ++ Nat.toDigits 10 index := by
  simp [MethodSlot.segment, Nat.toString_eq_repr]

theorem segment_injective {slot slot' : MethodSlot}
    (same : slot.segment.toList = slot'.segment.toList) : slot = slot' := by
  have differ (index : Nat) :
      ReservedName.receiver.toList ≠ ReservedName.parameterLead.toList ++ Nat.toDigits 10 index := by
    simp [ReservedName.receiver, ReservedName.parameterLead]
  cases slot with
  | receiver =>
      cases slot' with
      | receiver => rfl
      | parameter index =>
          rw [segment_toList_parameter] at same
          exact absurd same (differ index)
  | parameter index =>
      rw [segment_toList_parameter] at same
      cases slot' with
      | receiver => exact absurd same.symm (differ index)
      | parameter index' =>
          rw [segment_toList_parameter, List.append_cancel_left_eq] at same
          rw [toDigits_injective same]

theorem variableId_injective {methodId : String} {slot slot' : MethodSlot}
    (same : slot.variableId methodId = slot'.variableId methodId) : slot = slot' := by
  have texts := congrArg String.toList same
  rw [variableId_toList, variableId_toList, List.append_cancel_left_eq, List.cons.injEq] at texts
  exact segment_injective texts.2

/-- What follows the last slash of a variable id is the segment of its slot. -/
theorem afterLast_variableId (methodId : String) (slot : MethodSlot) :
    Text.afterLast '/' (slot.variableId methodId).toList = slot.segment.toList := by
  have plain : ∀ c ∈ slot.segment.toList.reverse, decide (c ≠ '/') = true := by
    intro c member
    refine decide_eq_true fun slash => slash_not_mem_segment slot ?_
    exact slash ▸ List.mem_reverse.mp member
  rw [Text.afterLast, variableId_toList]
  simp only [List.reverse_append, List.reverse_cons, List.append_assoc, List.singleton_append]
  rw [List.takeWhile_append_of_pos plain, List.takeWhile_cons_of_neg (by simp), List.append_nil,
    List.reverse_reverse]

theorem variableId_ne_bodyId (methodId key : String) (slot : MethodSlot) (n : Nat) :
    slot.variableId methodId ≠ bodyId methodId key n := by
  intro same
  have texts := congrArg String.toList same
  rw [variableId_toList, bodyId_toList, List.append_cancel_left_eq, List.cons.injEq] at texts
  have slash := slash_not_mem_segment slot
  simp [texts.2] at slash

/-! ### Numbers -/

namespace Builder

variable {builder : Builder}

theorem nextId_eq (method : Handle .method) (key : String) : builder.nextId method key =
    bodyId (builder.pool.methodAt method).id key (builder.keyCount method key) := rfl

theorem keyCount_countKey_self (method : Handle .method) (key : String) :
    (builder.countKey method key).keyCount method key = builder.keyCount method key + 1 := by
  simp [keyCount, countKey]

theorem keyCount_le_countKey (method other : Handle .method) (key k : String) :
    builder.keyCount other k ≤ (builder.countKey method key).keyCount other k := by
  by_cases sameMethod : method = other
  · by_cases sameKey : key = k
    · subst sameMethod sameKey
      rw [keyCount_countKey_self]
      exact Nat.le_succ _
    · simp [keyCount, countKey, Std.TreeMap.getElem?_insert, sameMethod, sameKey]
  · have places : method.index ≠ other.index := fun same =>
      sameMethod (Handle.index_injective same)
    simp [keyCount, countKey, Std.TreeMap.getD_insert, places]

/-- Methods keep their ids while more is said of them. -/
theorem id_getD_modify {methods : Array Method} {place : Nat} {change : Method → Method}
    (kept : ∀ record, (change record).id = record.id) (i : Nat) :
    ((methods.modify place change)[i]?.getD default).id = (methods[i]?.getD default).id := by
  rw [Array.getElem?_modify]
  split
  · cases methods[i]? <;> simp [kept]
  · rfl

/-- Every element of a body has a number that its key has given out, and no two elements of one method
share an id. -/
structure Numbered (builder : Builder) : Prop where
  drawn : ∀ {part : Part} {i : Nat} {entry : part.Entry} {method : Handle .method}, part ≠ .slot →
    (part.table builder.pool)[i]? = some entry → part.owner entry = some method.index →
    ∃ key n, part.entryId entry = bodyId (builder.pool.methodAt method).id key n ∧
      n < builder.keyCount method key
  apart : ∀ {part other : Part} {i j : Nat} {entry : part.Entry} {held : other.Entry},
    part ≠ .slot → other ≠ .slot → (part.table builder.pool)[i]? = some entry →
    (other.table builder.pool)[j]? = some held → part.owner entry = other.owner held →
    part.entryId entry = other.entryId held → (⟨part.kind, i⟩ : Ref) = ⟨other.kind, j⟩

namespace Numbered

/-- A builder that differs in nothing of the bodies. -/
theorem of_kept (numbered : builder.Numbered) (formed : builder.pool.WellFormed) {later : Builder}
    (tables_kept : ∀ {part : Part}, part ≠ .slot →
      part.table later.pool = part.table builder.pool)
    (ids_kept : ∀ {i : Nat}, i < builder.pool.methods.size →
      (later.pool.methodAt ⟨i⟩).id = (builder.pool.methodAt ⟨i⟩).id)
    (counters_kept : later.counters = builder.counters) : later.Numbered where
  drawn := by
    intro part i entry method body found owned
    rw [tables_kept body] at found
    rw [ids_kept ((formed.parts part).known found owned)]
    simpa only [keyCount, counters_kept] using numbered.drawn body found owned
  apart := by
    intro part other i j entry held body otherBody found otherFound
    rw [tables_kept body] at found
    rw [tables_kept otherBody] at otherFound
    exact numbered.apart body otherBody found otherFound

/-- A new element has a number that none of the elements of its method has with the same key. -/
theorem fresh (numbered : builder.Numbered) {part : Part} {i : Nat} {entry : part.Entry}
    {method : Handle .method} (body : part ≠ .slot) (found : (part.table builder.pool)[i]? = some entry)
    (owned : part.owner entry = some method.index) (key : String) :
    part.entryId entry ≠ builder.nextId method key := by
  intro same
  obtain ⟨oldKey, n, drawn, below⟩ := numbered.drawn body found owned
  rw [drawn, nextId_eq] at same
  obtain ⟨rfl, rfl⟩ := bodyId_injective same
  exact Nat.lt_irrefl _ below

theorem addElement (numbered : builder.Numbered) {part : Part} {method : Handle .method}
    {key : String} {entry : part.Entry}
    (drawn : part.entryId entry = builder.nextId method key)
    (owned : part.owner entry = some method.index) :
    (part.add method key entry builder).Numbered where
  drawn := by
    intro other i held holder otherBody found heldBy
    have id_kept : ((part.add method key entry builder).pool.methodAt holder).id =
        (builder.pool.methodAt holder).id := by
      rw [Pool.methodAt, Part.add_methods]
      exact id_getD_modify (part.note_id · _) holder.index
    rw [id_kept]
    rcases Part.found_add _ _ _ _ _ found with old | ⟨-, id_same, owner_same⟩
    · obtain ⟨oldKey, n, text, below⟩ := numbered.drawn otherBody old heldBy
      exact ⟨oldKey, n, text, Nat.lt_of_lt_of_le below (keyCount_le_countKey _ _ _ _)⟩
    · rw [owner_same, owned, Option.some.injEq, Handle.index_injective.eq_iff] at heldBy
      subst heldBy
      refine ⟨key, builder.keyCount method key, by rw [id_same, drawn, nextId_eq], ?_⟩
      exact (keyCount_countKey_self method key).symm ▸ Nat.lt_succ_self _
  apart := by
    intro one other i j first second oneBody otherBody found otherFound owners ids
    rcases Part.found_add _ _ _ _ _ found with old | ⟨place, id_same, owner_same⟩ <;>
      rcases Part.found_add _ _ _ _ _ otherFound with old' | ⟨place', id_same', owner_same'⟩
    · exact numbered.apart oneBody otherBody old old' owners ids
    · rw [owner_same', owned] at owners
      rw [id_same', drawn] at ids
      exact absurd ids (numbered.fresh oneBody old owners key)
    · rw [owner_same, owned] at owners
      rw [id_same, drawn] at ids
      exact absurd ids.symm (numbered.fresh otherBody old' owners.symm key)
    · rw [place, place']

theorem change (numbered : builder.Numbered) (formed : builder.pool.WellFormed)
    {later : Builder} (changed : builder.Change later) : later.Numbered := by
  cases changed with
  | known => exact numbered
  | told | type | field =>
      refine numbered.of_kept formed (fun {part} _ => ?_) (fun _ => rfl) rfl
      cases part <;> rfl
  | method =>
      refine numbered.of_kept formed (fun {part} body => ?_) (fun {i} known => ?_) rfl
      · cases part with
        | slot => exact absurd rfl body
        | _ => rfl
      · change ((builder.pool.methods.push _)[i]?.getD default).id = _
        rw [Array.getElem?_push, if_neg (Nat.ne_of_lt known)]
        rfl
  | line method line =>
      refine numbered.of_kept formed (fun {part} _ => ?_) (fun {i} _ => ?_) rfl
      · cases part <;> rfl
      · have kept (record : Method) : { record with line }.id = record.id := rfl
        exact id_getD_modify kept i
  | element _ _ drawn owned => exact numbered.addElement drawn owned

theorem of_reachable (reachable : builder.Reachable) : builder.Numbered := by
  refine reachable.holds (motive := fun builder => builder.Numbered) ⟨?_, ?_⟩ ?_
  · intro part i entry method _ found
    cases part <;> simp [Part.table] at found
  · intro part other i j entry held _ _ found
    cases part <;> simp [Part.table] at found
  · intro before after reachable numbered changed
    exact numbered.change (Pool.WellFormed.of_reachable reachable) changed

end Numbered

end Builder

/-! ### Ids of a whole pool -/

/-- The element is in the pool. -/
def Pool.Holds (pool : Pool) (element : Ref) : Prop :=
  element.index < pool.count element.kind.element

/-- Variables and elements of bodies have ids of their own. -/
structure Pool.IdsDistinct (pool : Pool) : Prop where
  /-- Whatever their names are, those of one method have. -/
  in_method : ∀ (method : Handle .method) (one other : Ref), pool.Holds one → pool.Holds other →
    pool.owningMethod? one = some method → pool.owningMethod? other = some method →
    pool.elementId one = pool.elementId other → one = other
  /-- If the ids of methods have no slash, then all of them and the methods have. -/
  everywhere : (∀ method : Handle .method, method.index < pool.methods.size →
      '/' ∉ (pool.methodAt method).id.toList) →
    ∀ one other : Ref, pool.Holds one → pool.Holds other →
      one.kind ∉ [.type, .field] → other.kind ∉ [.type, .field] →
      pool.elementId one = pool.elementId other → one = other

namespace Builder

variable {builder : Builder}

section Entries

variable {part other : Part} {i j : Nat} {entry : part.Entry} {held : other.Entry}
  {method : Handle .method}

theorem slot_id (reachable : builder.Reachable) {held : Variable}
    (found : builder.pool.vars[i]? = some held) (owned : some held.method.index = some method.index) :
    held.id = held.slot.variableId (builder.pool.methodAt method).id := by
  obtain rfl : held.method = method := Handle.index_injective (Option.some.inj owned)
  exact (Pool.SlotsFilled.of_reachable reachable).variable_id
    (Pool.WellFormed.of_reachable reachable) found

theorem entryId_toList (reachable : builder.Reachable)
    (found : (part.table builder.pool)[i]? = some entry)
    (owned : part.owner entry = some method.index) :
    ∃ rest, (part.entryId entry).toList =
      (builder.pool.methodAt method).id.toList ++ '/' :: rest := by
  by_cases body : part = .slot
  · subst body
    exact ⟨_, by rw [Part.entryId, slot_id reachable found owned, variableId_toList]⟩
  · obtain ⟨key, n, text, -⟩ := (Numbered.of_reachable reachable).drawn body found owned
    exact ⟨_, by rw [text, bodyId_toList]⟩

/-- Elements of one method with the same id are the same. -/
theorem entries_apart (reachable : builder.Reachable)
    (found : (part.table builder.pool)[i]? = some entry)
    (otherFound : (other.table builder.pool)[j]? = some held)
    (owned : part.owner entry = some method.index) (otherOwned : other.owner held = some method.index)
    (ids : part.entryId entry = other.entryId held) : (⟨part.kind, i⟩ : Ref) = ⟨other.kind, j⟩ := by
  have numbered := Numbered.of_reachable reachable
  by_cases body : part = .slot <;> by_cases otherBody : other = .slot
  · subst body otherBody
    have methods : entry.method = held.method :=
      Handle.index_injective (Option.some.inj (owned.trans otherOwned.symm))
    change entry.id = held.id at ids
    rw [slot_id reachable found owned, slot_id reachable otherFound otherOwned] at ids
    rw [(Pool.SlotsFilled.of_reachable reachable).variable_unique
      (Pool.WellFormed.of_reachable reachable) found otherFound methods (variableId_injective ids)]
  · subst body
    obtain ⟨key, n, text, -⟩ := numbered.drawn otherBody otherFound otherOwned
    change entry.id = _ at ids
    rw [slot_id reachable found owned, text] at ids
    exact absurd ids (variableId_ne_bodyId _ _ _ _)
  · subst otherBody
    obtain ⟨key, n, text, -⟩ := numbered.drawn body found owned
    change _ = held.id at ids
    rw [slot_id reachable otherFound otherOwned, text] at ids
    exact absurd ids.symm (variableId_ne_bodyId _ _ _ _)
  · exact numbered.apart body otherBody found otherFound (owned.trans otherOwned.symm) ids

end Entries

/-- A variable or element of a body, as the entry of a table. -/
theorem entry_of_owned {element : Ref} (held : builder.pool.Holds element) {method : Handle .method}
    (named : builder.pool.owningMethod? element = some method) :
    ∃ (part : Part) (entry : part.Entry), element = ⟨part.kind, element.index⟩ ∧
      (part.table builder.pool)[element.index]? = some entry ∧
      part.owner entry = some method.index ∧
      builder.pool.elementId element = part.entryId entry := by
  obtain ⟨part, kind⟩ := Part.exists_part (Part.inner_of_owned named)
  obtain ⟨place, i⟩ := element
  cases kind
  obtain ⟨entry, found, owned⟩ := Part.exists_owned_iff.mpr ⟨held, named⟩
  exact ⟨part, entry, rfl, found, owned, Part.elementId_of_found found⟩

/-- A method's id, or the id of a variable or element of a method. -/
theorem method_or_owned (reachable : builder.Reachable) {element : Ref}
    (held : builder.pool.Holds element) (kind : element.kind ∉ [.type, .field]) :
    ∃ method : Handle .method, method.index < builder.pool.methods.size ∧
      (element = method.ref ∨ builder.pool.owningMethod? element = some method ∧
        ∃ rest, (builder.pool.elementId element).toList =
          (builder.pool.methodAt method).id.toList ++ '/' :: rest) := by
  by_cases isMethod : element.kind = .method
  · obtain ⟨_, i⟩ := element
    subst isMethod
    exact ⟨⟨i⟩, held, .inl rfl⟩
  · obtain ⟨part, shape⟩ := Part.exists_part (show element.kind ∉ [.type, .field, .method] by
      simp_all)
    obtain ⟨_, i⟩ := element
    subst shape
    obtain ⟨method, known, named⟩ := (Pool.WellFormed.of_reachable reachable).element_known part held
    obtain ⟨part', entry, -, found, owned, id⟩ := entry_of_owned held named
    refine ⟨method, known, .inr ⟨named, ?_⟩⟩
    rw [id]
    exact entryId_toList reachable found owned

theorem in_method (reachable : builder.Reachable) {method : Handle .method} {one other : Ref}
    (held : builder.pool.Holds one) (otherHeld : builder.pool.Holds other)
    (named : builder.pool.owningMethod? one = some method)
    (otherNamed : builder.pool.owningMethod? other = some method)
    (ids : builder.pool.elementId one = builder.pool.elementId other) : one = other := by
  obtain ⟨part, entry, shape, found, owned, id⟩ := entry_of_owned held named
  obtain ⟨part', entry', shape', found', owned', id'⟩ := entry_of_owned otherHeld otherNamed
  rw [shape, shape']
  exact entries_apart reachable found found' owned owned' (by rw [← id, ← id', ids])

theorem idsDistinct_of_reachable (reachable : builder.Reachable) : builder.pool.IdsDistinct where
  in_method _ _ _ := in_method reachable
  everywhere := by
    intro clean one other held otherHeld kind otherKind ids
    have texts := congrArg String.toList ids
    obtain ⟨method, known, shape⟩ := method_or_owned reachable held kind
    obtain ⟨method', known', shape'⟩ := method_or_owned reachable otherHeld otherKind
    rcases shape with rfl | ⟨named, rest, text⟩ <;> rcases shape' with rfl | ⟨named', rest', text'⟩
    · rw [(Pool.WellFormed.of_reachable reachable).methods_named.unique known known' ids]
    · have slash := clean method known
      change (builder.pool.methodAt method).id.toList = _ at texts
      rw [texts, text'] at slash
      simp at slash
    · have slash := clean method' known'
      change _ = (builder.pool.methodAt method').id.toList at texts
      rw [← texts, text] at slash
      simp at slash
    · rw [text, text'] at texts
      have ids_eq := String.toList_injective
        (eq_of_first_separator (clean method known) (clean method' known') texts).1
      obtain rfl : method = method' :=
        (Pool.WellFormed.of_reachable reachable).methods_named.unique known known' ids_eq
      exact in_method reachable held otherHeld named named' ids

end Builder

theorem Builder.finish_elementId (builder : Builder) (element : Ref) :
    builder.finish.pool.elementId element = builder.pool.elementId element := by
  rcases element with ⟨kind, i⟩
  cases kind with
  | lambda =>
      simp only [Pool.elementId, Pool.lambdaAt, finish, Array.getElem?_map]
      cases builder.pool.lambdas[i]? <;> rfl
  | _ => rfl

theorem Builder.finish_owningMethod? (builder : Builder) (element : Ref) :
    builder.finish.pool.owningMethod? element = builder.pool.owningMethod? element := by
  rcases element with ⟨kind, i⟩
  cases kind with
  | lambda =>
      simp only [Pool.owningMethod?, Pool.lambdaAt, finish, Array.getElem?_map]
      cases builder.pool.lambdas[i]? <;> rfl
  | _ => rfl

theorem Builder.finish_count (builder : Builder) (kind : Kind) :
    builder.finish.pool.count kind.element = builder.pool.count kind.element := by
  cases kind with
  | lambda => exact Array.size_map
  | _ => rfl

/-- In every pool that is built, what is in one method has distinct ids, and so has everything else as
long as no method id contains the separator. -/
theorem ids_distinct {pool : Pool} (built : pool.IsBuilt) : pool.IdsDistinct := by
  obtain ⟨builder, reachable, rfl⟩ := built
  have distinct := Builder.idsDistinct_of_reachable reachable
  have held {element : Ref} (held : builder.finish.pool.Holds element) :
      builder.pool.Holds element := by
    simpa only [Pool.Holds, builder.finish_count] using held
  constructor
  · intro method one other oneHeld otherHeld named otherNamed ids
    rw [builder.finish_elementId, builder.finish_elementId] at ids
    rw [builder.finish_owningMethod?] at named otherNamed
    exact distinct.in_method method one other (held oneHeld) (held otherHeld) named otherNamed ids
  · intro clean one other oneHeld otherHeld kind otherKind ids
    rw [builder.finish_elementId, builder.finish_elementId] at ids
    exact distinct.everywhere clean one other (held oneHeld) (held otherHeld) kind otherKind ids

/-- A call and an allocation that share a key. -/
def sharedKeySteps : List Step :=
  let method (name : String) : Signature := { name, params := [], returnType := "void" }
  [.type "a.B", .method ⟨0⟩ (method "m") [], .invocation ⟨0⟩ "new p" (method "B") none,
    .allocation ⟨0⟩ "p.B" none]

theorem ids_distinct_sharedKey :
    let pool := (({} : Builder).performAll sharedKeySteps).1.finish.pool
    pool.IsBuilt ∧ pool.IdsDistinct ∧
      pool.elementId ⟨.invocation, 0⟩ = "<a.B: void m()>/new p.B/0" ∧
      pool.elementId ⟨.allocation, 0⟩ = "<a.B: void m()>/new p.B/1" := by
  have built : (({} : Builder).performAll sharedKeySteps).1.finish.pool.IsBuilt := by
    refine ⟨_, Builder.Reachable.empty.performAll ?admitted, rfl⟩
    exact ⟨trivial, Nat.zero_lt_one, Nat.zero_lt_one, Nat.zero_lt_one, trivial⟩
  exact ⟨built, ids_distinct built, by decide +kernel, by decide +kernel⟩

end Correlate.Compiled
