/-
Module: Correlate.Proofs.Source.Elements
Purpose: The elements of a file by kind.
Main exports: File.mem_elements, File.allElements, File.mem_allElements, File.nodup_allElements
-/
import Mathlib.Data.List.Nodup
import Correlate.Source.File

namespace Correlate.Source.File

/-- The elements of a file, kind after kind. -/
def allElements (file : File) : List Ref :=
  ElementKind.all.flatMap file.elements

variable {file : File}

/-- A method is listed among the lambdas or among all others. -/
theorem mem_methodHandles {lambdas : Bool} {method : Handle .method} :
    method ∈ file.methodHandles lambdas ↔
      method.index < file.methods.size ∧
        ((file.methodAt method).kind = .lambda ↔ lambdas = true) := by
  simp only [methodHandles, List.mem_filter, List.mem_map, List.mem_range, decide_eq_true_eq,
    eq_iff_iff]
  refine and_congr_left fun _ => ⟨?_, fun known => ⟨_, known, rfl⟩⟩
  rintro ⟨_, known, rfl⟩
  exact known

/-- The elements of a kind are all the elements that are of this kind. -/
theorem mem_elements {kind : ElementKind} {element : Ref} :
    element ∈ file.elements kind ↔
      element.index < file.count element.kind ∧ file.elementKind element = kind := by
  obtain ⟨sourceKind, i⟩ := element
  have mem_methods (lambdas : Bool) :
      (⟨sourceKind, i⟩ : Ref) ∈ (file.methodHandles lambdas).map Handle.ref ↔
        sourceKind = .method ∧ (⟨i⟩ : Handle .method) ∈ file.methodHandles lambdas := by
    rw [List.mem_map]
    constructor
    · rintro ⟨⟨j⟩, listed, same⟩
      obtain ⟨rfl, rfl⟩ := Ref.mk.inj same
      exact ⟨rfl, listed⟩
    · rintro ⟨rfl, listed⟩
      exact ⟨⟨i⟩, listed, rfl⟩
  have mem_others (other : Kind) :
      (⟨sourceKind, i⟩ : Ref) ∈ (List.range (file.count other)).map (Ref.mk other) ↔
        sourceKind = other ∧ i < file.count sourceKind := by
    rw [List.mem_map]
    constructor
    · rintro ⟨j, bound, same⟩
      obtain ⟨rfl, rfl⟩ := Ref.mk.inj same
      exact ⟨rfl, List.mem_range.mp bound⟩
    · rintro ⟨rfl, bound⟩
      exact ⟨i, List.mem_range.mpr bound, rfl⟩
  cases kind with
  | method =>
      apply (mem_methods false).trans
      rw [mem_methodHandles]
      cases sourceKind <;> simp [elementKind, count, Kind.element]
  | lambda =>
      apply (mem_methods true).trans
      rw [mem_methodHandles]
      cases sourceKind <;> simp [elementKind, count, Kind.element]
  | _ =>
      refine (mem_others _).trans (and_comm.trans (and_congr_right fun _ => ?_))
      cases sourceKind <;> simp [elementKind, Kind.element, Kind.ofElement, ite_eq_iff]

theorem nodup_elements (kind : ElementKind) : (file.elements kind).Nodup := by
  have refs (sourceKind : Kind) : Function.Injective (Ref.mk sourceKind) := by
    intro i j same
    exact (Ref.mk.inj same).2
  have handles : Function.Injective (@Handle.ref .method) := by
    rintro ⟨i⟩ ⟨j⟩ same
    exact congrArg Handle.mk (Ref.mk.inj same).2
  have methods : Function.Injective (@Handle.mk .method) := fun i j same => Handle.mk.inj same
  cases kind with
  | method | lambda => exact ((List.nodup_range.map methods).filter _).map handles
  | _ => exact List.nodup_range.map (refs _)

theorem mem_allElements {element : Ref} :
    element ∈ file.allElements ↔ element.index < file.count element.kind := by
  rw [allElements, List.mem_flatMap]
  constructor
  · rintro ⟨kind, _, listed⟩
    exact (mem_elements.mp listed).1
  · intro known
    have every (kind : ElementKind) : kind ∈ ElementKind.all := by cases kind <;> decide
    exact ⟨_, every _, mem_elements.mpr ⟨known, rfl⟩⟩

theorem nodup_allElements (file : File) : file.allElements.Nodup := by
  rw [allElements, List.nodup_flatMap]
  refine ⟨fun kind _ => nodup_elements kind, ?_⟩
  have apart : ElementKind.all.Nodup := by decide
  refine apart.imp fun {kind next} different element member memberNext => ?_
  exact different ((mem_elements.mp member).2.symm.trans (mem_elements.mp memberNext).2)

end Correlate.Source.File
