/-
Module: Correlate.Proofs.Compiled.Slots
Purpose: The receiver and the parameters of compiled methods.
Main exports: Pool.SlotsFilled, Pool.SlotsFilled.of_reachable, Pool.IsBuilt.slotsFilled
-/
import Correlate.Proofs.Compiled.WellFormed

namespace Correlate.Compiled

/-!
A method gets its variables when it is added, and nothing changes them later: a receiver unless it is
static, then one parameter for each of its parameter types.
-/

/-- The variables of the methods of a pool fill their slots in order. -/
structure Pool.SlotsFilled (pool : Pool) : Prop where
  receiver : ∀ {i : Nat} {method : Method}, pool.methods[i]? = some method →
    method.receiver.isNone = method.modifiers.isStatic
  filled : ∀ {i : Nat} {method : Method}, pool.methods[i]? = some method →
    (Part.slot.list method).map (fun place => pool.vars[place]?) =
      (Builder.newSlots ⟨i⟩ method.id method.modifiers.isStatic method.arity).map some

namespace Pool.SlotsFilled

section Building

variable {builder : Builder}

/-- A pool that differs in what the methods say of themselves, but for their variables. -/
theorem changeMethods {pool later : Pool} (filled : pool.SlotsFilled)
    (vars_kept : later.vars = pool.vars) (change : Method → Method) {place : Nat}
    (methods_changed : later.methods = pool.methods.modify place change)
    (id_kept : ∀ record, (change record).id = record.id)
    (signature_kept : ∀ record, (change record).signature = record.signature)
    (modifiers_kept : ∀ record, (change record).modifiers = record.modifiers)
    (receiver_kept : ∀ record, (change record).receiver = record.receiver)
    (slots_kept : ∀ record, Part.slot.list (change record) = Part.slot.list record) :
    later.SlotsFilled where
  receiver := by
    intro i method found
    rw [methods_changed, Array.getElem?_modify] at found
    split at found
    · obtain ⟨old, oldFound, rfl⟩ := Option.map_eq_some_iff.mp found
      rw [receiver_kept, modifiers_kept]
      exact filled.receiver oldFound
    · exact filled.receiver found
  filled := by
    intro i method found
    rw [methods_changed, Array.getElem?_modify] at found
    rw [vars_kept]
    split at found
    · obtain ⟨old, oldFound, rfl⟩ := Option.map_eq_some_iff.mp found
      rw [slots_kept, id_kept, modifiers_kept, Method.arity, signature_kept]
      exact filled.filled oldFound
    · exact filled.filled found

/-- The entries of a table at the places that a list is appended to. -/
theorem map_range'_append (table : Array Variable) (added : List Variable) :
    (List.range' table.size added.length).map (fun place => (table ++ added)[place]?) =
      added.map some := by
  apply List.ext_getElem
  · simp
  · intro n first second
    have inside : n < added.length := by simpa using second
    rw [List.getElem_map, List.getElem_map, List.getElem_range', ← Array.getElem?_toList,
      Array.toList_appendList, List.getElem?_append_right (by simp)]
    simp [inside]

/-- A list of old places names the same entries after more are appended. -/
theorem map_append_of_known {table : Array Variable} (added : List Variable) {places : List Nat}
    (known : ∀ place ∈ places, place < table.size) :
    places.map (fun place => (table ++ added)[place]?) = places.map fun place => table[place]? := by
  apply List.map_congr_left
  intro place member
  rw [← Array.getElem?_toList, Array.toList_appendList,
    List.getElem?_append_left (by simpa using known place member), Array.getElem?_toList]

theorem pushMethod (filled : builder.pool.SlotsFilled) (formed : builder.pool.WellFormed)
    (owner : Handle .type) (signature : Signature) (modifiers : Modifiers) :
    (builder.pushMethod owner signature modifiers).pool.SlotsFilled where
  receiver := by
    intro i method found
    replace found : (builder.pool.methods.push
        (Builder.newMethod owner signature modifiers builder.pool))[i]? = some method := found
    rw [Array.getElem?_push] at found
    split at found
    · obtain rfl := Option.some.inj found
      simp only [Builder.newMethod]
      cases modifiers.isStatic <;> rfl
    · exact filled.receiver found
  filled := by
    intro i method found
    replace found : (builder.pool.methods.push
        (Builder.newMethod owner signature modifiers builder.pool))[i]? = some method := found
    rw [Array.getElem?_push] at found
    split at found
    · next last =>
      obtain rfl := Option.some.inj found
      subst last
      have places : Part.slot.list (Builder.newMethod owner signature modifiers builder.pool) =
          List.range' builder.pool.vars.size (Builder.newSlots ⟨builder.pool.methods.size⟩
            (Builder.newMethod owner signature modifiers builder.pool).id modifiers.isStatic
            signature.arity).length := by
        rw [Builder.newSlots, List.length_map]
        exact WellFormed.slotHandles _ _ _
      rw [places]
      exact map_range'_append _ _
    · have known : ∀ place ∈ Part.slot.list method, place < builder.pool.vars.size := by
        intro place member
        obtain ⟨held, heldFound, -⟩ := ((formed.parts .slot).mem_iff found).mp member
        exact (Array.getElem?_eq_some_iff.mp heldFound).1
      rw [← filled.filled found]
      exact map_append_of_known _ known

theorem change (filled : builder.pool.SlotsFilled) (formed : builder.pool.WellFormed)
    {later : Builder} (changed : builder.Change later) : later.pool.SlotsFilled := by
  cases changed with
  | known => exact filled
  | told | type | field => exact ⟨filled.receiver, filled.filled⟩
  | method => exact filled.pushMethod formed _ _ _
  | line method line =>
      exact filled.changeMethods rfl (fun record => { record with line }) rfl (fun _ => rfl)
        (fun _ => rfl) (fun _ => rfl) (fun _ => rfl) fun _ => rfl
  | @element part body =>
      exact filled.changeMethods (Part.table_add_other _ _ _ _ _ body.symm) _
        (Part.add_methods _ _ _ _ _) (part.note_id · _) (part.note_signature · _)
        (part.note_modifiers · _) (part.note_receiver · _) fun _ =>
          Part.list_note_other _ _ _ body.symm

theorem of_reachable (reachable : builder.Reachable) : builder.pool.SlotsFilled := by
  refine reachable.holds (motive := fun builder => builder.pool.SlotsFilled) ⟨?_, ?_⟩ ?_
  · intro i method found
    simp at found
  · intro i method found
    simp at found
  · intro before after reachable filled changed
    exact filled.change (WellFormed.of_reachable reachable) changed

end Building

/-! ### What the slots say -/

variable {pool : Pool}

/-- The receiver and the parameters of a method, each with the variable in its slot. -/
theorem split_filled (filled : pool.SlotsFilled) {i : Nat} {method : Method}
    (found : pool.methods[i]? = some method) :
    (∀ held, method.receiver = some held → pool.vars[held.index]? =
      some { id := MethodSlot.receiver.variableId method.id, method := ⟨i⟩, slot := .receiver }) ∧
    method.params.map (fun held => pool.vars[held.index]?) =
      (List.range method.arity).map fun n => some
        { id := (MethodSlot.parameter n).variableId method.id, method := ⟨i⟩
          slot := .parameter n } := by
  have receiver := filled.receiver found
  have both := filled.filled found
  rw [← receiver] at both
  cases shape : method.receiver with
  | none =>
      simp only [Part.list, Builder.newSlots, Builder.slots, shape, Option.isNone_none, if_true,
        Option.toList_none, List.nil_append, List.map_map] at both
      refine ⟨fun held same => ?_, both⟩
      cases same
  | some held =>
      simp only [Part.list, Builder.newSlots, Builder.slots, shape, Option.isNone_some,
        Bool.false_eq_true, if_false, Option.toList_some, List.singleton_append, List.map_cons,
        List.map_map, List.cons.injEq] at both
      refine ⟨fun other same => ?_, both.2⟩
      cases same
      exact both.1

theorem params_length (filled : pool.SlotsFilled) {i : Nat} {method : Method}
    (found : pool.methods[i]? = some method) : method.params.length = method.arity := by
  have lengths := congrArg List.length (filled.split_filled found).2
  simpa using lengths

theorem param_variable (filled : pool.SlotsFilled) {i n : Nat} {method : Method}
    (found : pool.methods[i]? = some method) {held : Handle .variable}
    (place : method.params[n]? = some held) :
    pool.vars[held.index]? = some
      { id := (MethodSlot.parameter n).variableId method.id, method := ⟨i⟩
        slot := .parameter n } := by
  have inside : n < method.arity := by
    rw [← filled.params_length found]
    exact (List.getElem?_eq_some_iff.mp place).1
  have nth := congrArg (·[n]?) (filled.split_filled found).2
  simpa [place, inside] using nth

/-- Every variable is in a slot of its method. -/
theorem variable_filled (filled : pool.SlotsFilled) (formed : pool.WellFormed) {i : Nat}
    {held : Variable} (found : pool.vars[i]? = some held) :
    ∃ (method : Method) (n : Nat), pool.methods[held.method.index]? = some method ∧
      (Part.slot.list method)[n]? = some i ∧
      (Builder.newSlots held.method method.id method.modifiers.isStatic method.arity)[n]? =
        some held := by
  have known : held.method.index < pool.methods.size := (formed.parts .slot).known found rfl
  obtain ⟨method, methodFound⟩ : ∃ method, pool.methods[held.method.index]? = some method :=
    ⟨_, Array.getElem?_eq_getElem known⟩
  have listed : i ∈ Part.slot.list method :=
    ((formed.parts .slot).mem_iff methodFound).mpr ⟨held, found, rfl⟩
  obtain ⟨n, place⟩ := List.mem_iff_getElem?.mp listed
  have nth := congrArg (·[n]?) (filled.filled methodFound)
  simp only [List.getElem?_map, place, Option.map_some, found] at nth
  cases slot : (Builder.newSlots held.method method.id method.modifiers.isStatic method.arity)[n]? with
  | none => simp [slot] at nth
  | some other =>
      rw [slot, Option.map_some, Option.some.injEq, Option.some.injEq] at nth
      exact ⟨method, n, methodFound, place, nth ▸ slot⟩

theorem slots_nodup (isStatic : Bool) (arity : Nat) : (Builder.slots isStatic arity).Nodup := by
  have params : ((List.range arity).map MethodSlot.parameter).Nodup :=
    List.nodup_range.map fun n m same => MethodSlot.parameter.inj same
  cases isStatic <;> simp [Builder.slots, params]

/-- A variable of a new method names its slot in its id. -/
theorem getElem?_newSlots {method : Handle .method} {id : String} {isStatic : Bool} {arity n : Nat}
    {held : Variable} (found : (Builder.newSlots method id isStatic arity)[n]? = some held) :
    held.id = held.slot.variableId id ∧ (Builder.slots isStatic arity)[n]? = some held.slot := by
  rw [Builder.newSlots, List.getElem?_map, Option.map_eq_some_iff] at found
  obtain ⟨slot, place, rfl⟩ := found
  exact ⟨rfl, place⟩

theorem variable_id (filled : pool.SlotsFilled) (formed : pool.WellFormed) {i : Nat}
    {held : Variable} (found : pool.vars[i]? = some held) :
    held.id = held.slot.variableId (pool.methodAt held.method).id := by
  obtain ⟨method, n, methodFound, -, slot⟩ := filled.variable_filled formed found
  rw [Pool.methodAt, methodFound, Option.getD_some]
  exact (getElem?_newSlots slot).1

/-- A method has one variable in each slot. -/
theorem variable_unique (filled : pool.SlotsFilled) (formed : pool.WellFormed) {i j : Nat}
    {held other : Variable} (found : pool.vars[i]? = some held)
    (otherFound : pool.vars[j]? = some other) (methods : held.method = other.method)
    (slots : held.slot = other.slot) : i = j := by
  obtain ⟨method, n, methodFound, place, slot⟩ := filled.variable_filled formed found
  obtain ⟨method', m, methodFound', place', slot'⟩ := filled.variable_filled formed otherFound
  rw [methods, methodFound', Option.some.injEq] at methodFound
  subst methodFound
  have same : n = m := by
    have first := (getElem?_newSlots slot).2
    have second := (getElem?_newSlots slot').2
    rw [← slots] at second
    exact (List.getElem?_inj (List.getElem?_eq_some_iff.mp first).1 (slots_nodup _ _)).mp
      (first.trans second.symm)
  subst same
  exact Option.some.inj (place.symm.trans place')

end Pool.SlotsFilled

theorem Pool.IsBuilt.slotsFilled {pool : Pool} (built : pool.IsBuilt) : pool.SlotsFilled := by
  obtain ⟨builder, reachable, rfl⟩ := built
  have filled := Pool.SlotsFilled.of_reachable reachable
  exact ⟨filled.receiver, filled.filled⟩

end Correlate.Compiled
