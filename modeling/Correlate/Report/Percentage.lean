/-
Module: Correlate.Report.Percentage
Purpose: The text of a share of a total.
Main exports: Percentage.tenths, Percentage.text
-/
import Correlate.Rounding

namespace Correlate.Percentage

/-- How far a quotient is shifted to the left so that its integral part has all digits of a double. -/
def scale (dividend divisor : Nat) : Nat :=
  let shift := doublePrecision - 1 + divisor.log2 - dividend.log2
  if dividend <<< shift < divisor <<< (doublePrecision - 1) then shift + 1 else shift

/-- The tenths of a percent that a part is of the whole.  The quotient is rounded to a double before
it is rounded to tenths.  Of nothing, nothing is all. -/
def tenths (part whole : Nat) : Nat :=
  if whole = 0 then 1000
  else if part = 0 then 0
  else
    let shift := scale (part * 100) whole
    roundDiv (roundDiv ((part * 100) <<< shift) whole * 10) (1 <<< shift)

/-- A percentage with one decimal place. -/
def text (part whole : Nat) : String :=
  let value := tenths part whole
  s!"{value / 10}.{value % 10}"

example : text 1 16 = "6.2" ∧ text 3 16 = "18.8" ∧ text 2 3 = "66.7" ∧ text 0 0 = "100.0" := by
  decide +kernel

end Correlate.Percentage
