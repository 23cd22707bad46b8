/-
Module: Correlate.Compiled.Hierarchy
Purpose: Which method a call reaches.
Main exports: Pool.declaration?, Pool.targetId
-/
import Correlate.Compiled.Pool

namespace Correlate.Compiled

/-!
A call names a type that need not declare the called method itself.  The walk goes from that type up
through its super types, each with everything above it before the next one, and enters no type twice.
The root of all classes and types without compiled code are not entered.
-/

/-- The type that all classes extend. -/
def rootType : String := "java.lang.Object"

/-- A walk enters no type that is further than this from where it starts. -/
def maxHierarchyDepth : Nat := 64

/-- A type to walk to, and its distance from the start. -/
abbrev Stop := String × Nat

namespace Pool

/-- The names of the types that a walk may still enter. -/
def unentered (pool : Pool) (entered : List String) : List String :=
  pool.typeIndex.keys.filter fun name => name ∉ entered

theorem unentered_lt {pool : Pool} {entered : List String} {name : String} {type : Handle .type}
    (known : pool.typeNamed? name = some type) (fresh : name ∉ entered) :
    (pool.unentered (name :: entered)).length < (pool.unentered entered).length := by
  have present : name ∈ pool.typeIndex.keys := by
    rw [Std.TreeMap.mem_keys, Std.TreeMap.mem_iff_isSome_getElem?]
    simp [typeNamed?] at known
    simp [known]
  have shrink : pool.unentered (name :: entered) =
      (pool.unentered entered).filter fun other => other ≠ name := by
    simp only [unentered, List.filter_filter]
    congr 1
    funext other
    simp [List.mem_cons, not_or]
  rw [shrink]
  refine List.length_filter_lt_length_iff_exists.2 ⟨name, ?_, by simp⟩
  simp [unentered, present, fresh]

/-- A walk does not enter this type. -/
def passesBy (entered : List String) (stop : Stop) : Bool :=
  stop.1 == rootType || maxHierarchyDepth < stop.2 || entered.contains stop.1

/-- The super types of a type as the next stops. -/
def stopsAbove (pool : Pool) (type : Handle .type) (depth : Nat) : List Stop :=
  (pool.typeAt type).superTypes.map fun name => (name, depth + 1)

/-- Walk on from the given stops to the first type that declares a method of the signature. -/
def walk (pool : Pool) (signature : Signature) (entered : List String) :
    List Stop → Option (Handle .method)
  | [] => none
  | stop :: rest =>
      if _passed : passesBy entered stop then walk pool signature entered rest
      else
        match _known : pool.typeNamed? stop.1 with
        | none => walk pool signature entered rest
        | some type =>
            match pool.findMethod? type signature with
            | some method => some method
            | none =>
                walk pool signature (stop.1 :: entered) (pool.stopsAbove type stop.2 ++ rest)
termination_by stops => ((pool.unentered entered).length, stops.length)
decreasing_by
  · exact Prod.Lex.right _ (by simp)
  · exact Prod.Lex.right _ (by simp)
  · refine Prod.Lex.left _ _ (unentered_lt _known fun member => _passed ?_)
    simp [passesBy, member]

/-- The method that a call of a type's method reaches, if compiled code declares it. -/
def declaration? (pool : Pool) (type : String) (signature : Signature) : Option (Handle .method) :=
  pool.walk signature [] [(type, 0)]

/-- The id of the method that a call reaches; where no compiled code declares it, the id that it
would have in the named type. -/
def targetId (pool : Pool) (call : Invocation) : String :=
  match pool.declaration? call.targetType call.signature with
  | some method => (pool.methodAt method).id
  | none => call.signature.idIn call.targetType

end Pool

end Correlate.Compiled
