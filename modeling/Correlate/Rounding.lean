/-
Module: Correlate.Rounding
Purpose: Quotients and numbers rounded to the nearest, with a half going to the even neighbour.
Main exports: roundDiv, doublePrecision, nearestDouble
-/

namespace Correlate

/-- A quotient rounded to the nearest natural number; a half goes to the even neighbour. -/
def roundDiv (dividend divisor : Nat) : Nat :=
  let quotient := dividend / divisor
  let twice := 2 * (dividend % divisor)
  if divisor < twice || (twice = divisor && quotient % 2 = 1) then quotient + 1 else quotient

/-- A quotient without a remainder stays as it is. -/
theorem roundDiv_of_mod_eq_zero {dividend divisor : Nat} (exact : dividend % divisor = 0) :
    roundDiv dividend divisor = dividend / divisor := by
  by_cases zero : divisor = 0
  · have nothing : dividend = 0 := by simpa [zero] using exact
    simp [roundDiv, zero, nothing]
  · have apart : ¬ 0 = divisor := fun same => zero same.symm
    simp [roundDiv, exact, apart]

/-- The number of binary digits of a double. -/
def doublePrecision : Nat := 53

/-- The double nearest to a natural number, if the range of doubles reaches that far. -/
def nearestDouble (n : Nat) : Nat :=
  let excess := n.log2 + 1 - doublePrecision
  roundDiv n (1 <<< excess) <<< excess

example : nearestDouble 9007199254740991 = 9007199254740991 ∧
    nearestDouble 9007199254740993 = 9007199254740992 ∧
    nearestDouble 9007199254740995 = 9007199254740996 := by
  decide +kernel

end Correlate
