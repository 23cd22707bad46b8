/-
Module: Correlate.Proofs.Compiled.VariableIds
Purpose: The id of a variable of compiled code tells its slot, whatever its method is called.
Main exports: MethodSlot.IsWord, ofVariableId?_variableId, variableIds_decode
-/
import Correlate.Proofs.Compiled.Naming

namespace Correlate

/-!
The id of a variable is written where a method is added and read where rows of facts name it.  No
segment of a slot has a slash in it, so reading cuts the id where writing has put it together, even
if there are slashes in the names that the id of the method is made of.
-/

/-- The number of a parameter is a word, as the places in a list in memory are. -/
def MethodSlot.IsWord : MethodSlot → Prop
  | .receiver => True
  | .parameter index => index < Text.wordLimit

namespace Compiled

theorem readWord?_toDigits (n : Nat) :
    Text.readWord? (Nat.toDigits 10 n) = if n < Text.wordLimit then some n else none := by
  unfold Text.readWord?
  split
  · next rest plus =>
    have digit := Nat.isDigit_of_mem_toDigits (by decide) (by decide)
      (plus ▸ List.mem_cons_self : '+' ∈ Nat.toDigits 10 n)
    exact absurd digit (by decide)
  · simp [Text.readDigits?_toDigits, Option.filter_some]

/-- The id of a variable reads back as its slot and as no other, if the number of that is a word. -/
theorem ofVariableId?_variableId {methodId : String} {slot named : MethodSlot} :
    MethodSlot.ofVariableId? (slot.variableId methodId) = some named ↔
      slot = named ∧ slot.IsWord := by
  rw [MethodSlot.ofVariableId?, afterLast_variableId]
  cases slot with
  | receiver => simp [MethodSlot.segment, MethodSlot.IsWord]
  | parameter index =>
      have other : (MethodSlot.parameter index).segment.toList ≠ ReservedName.receiver.toList := by
        intro same
        cases show MethodSlot.parameter index = .receiver from segment_injective same
      have cut : Text.dropLeading? ReservedName.parameterLead.toList
          (MethodSlot.parameter index).segment.toList = some (Nat.toDigits 10 index) :=
        Text.dropLeading?_eq_some_iff.mpr (segment_toList_parameter index)
      by_cases bounded : index < Text.wordLimit <;>
        simp [other, cut, readWord?_toDigits, MethodSlot.IsWord, bounded]

/-- In every pool that is built, the ids of receivers read back as receivers and those of parameters
as parameters with their numbers.  No two variables of one method have ids that read alike. -/
theorem variableIds_decode {pool : Pool} (built : pool.IsBuilt) :
    (∀ (i : Nat) (held : Variable), pool.vars[i]? = some held →
      (MethodSlot.ofVariableId? held.id = some held.slot ↔ held.slot.IsWord)) ∧
    ∀ (i j : Nat) (held other : Variable) (slot : MethodSlot), pool.vars[i]? = some held →
      pool.vars[j]? = some other → held.method = other.method →
      MethodSlot.ofVariableId? held.id = some slot →
      MethodSlot.ofVariableId? other.id = some slot → i = j := by
  have filled := built.slotsFilled
  have formed := built.wellFormed
  constructor
  · intro i held found
    rw [filled.variable_id formed found, ofVariableId?_variableId]
    exact and_iff_right rfl
  · intro i j held other slot found otherFound methods decoded otherDecoded
    rw [filled.variable_id formed found, ofVariableId?_variableId] at decoded
    rw [filled.variable_id formed otherFound, ofVariableId?_variableId] at otherDecoded
    exact filled.variable_unique formed found otherFound methods
      (decoded.1.trans otherDecoded.1.symm)

/-- An instance method and a static one, with slashes and segments of slots in their names. -/
def slashedSteps : List Step :=
  [.type "a/@this", .method ⟨0⟩ { name := "m/@parameter7", params := ["b/@this"], returnType := "/" } [],
    .method ⟨0⟩ { name := "/", params := ["int", "c/d"], returnType := "void" } [.static]]

theorem variableIds_decode_slashed :
    let pool := (({} : Builder).performAll slashedSteps).1.finish.pool
    pool.IsBuilt ∧ pool.vars.map Variable.id =
        #["<a/@this: / m/@parameter7(b/@this)>/@this",
          "<a/@this: / m/@parameter7(b/@this)>/@parameter0",
          "<a/@this: void /(int,c/d)>/@parameter0", "<a/@this: void /(int,c/d)>/@parameter1"] ∧
      MethodSlot.ofVariableId? "<a/@this: / m/@parameter7(b/@this)>/@this" = some .receiver ∧
      MethodSlot.ofVariableId? "<a/@this: void /(int,c/d)>/@parameter1" = some (.parameter 1) ∧
      ∀ slot, MethodSlot.ofVariableId? "<a/@this: / m/@parameter7(b/@this)>/@this" = some slot →
        MethodSlot.ofVariableId? "<a/@this: / m/@parameter7(b/@this)>/@parameter0" ≠ some slot := by
  have built : (({} : Builder).performAll slashedSteps).1.finish.pool.IsBuilt := by
    refine ⟨_, Builder.Reachable.empty.performAll ?admitted, rfl⟩
    exact ⟨trivial, Nat.zero_lt_one, Nat.zero_lt_one, trivial⟩
  obtain ⟨decodes, apart⟩ := variableIds_decode built
  refine ⟨built, by decide +kernel, ?_, ?_, fun slot decoded other => ?_⟩
  · exact (decodes 0 ⟨_, ⟨0⟩, .receiver⟩ (by decide +kernel)).mpr trivial
  · exact (decodes 3 ⟨_, ⟨1⟩, .parameter 1⟩ (by decide +kernel)).mpr (show 1 < Text.wordLimit by decide)
  · exact absurd (apart 0 1 ⟨_, ⟨0⟩, .receiver⟩ ⟨_, ⟨0⟩, .parameter 0⟩ slot (by decide +kernel)
      (by decide +kernel) rfl decoded other) (by decide)

end Compiled

end Correlate
