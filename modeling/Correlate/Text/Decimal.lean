/-
Module: Correlate.Text.Decimal
Purpose: Decimal numbers in names.
Main exports: wordLimit, readWord?
-/

namespace Correlate.Text

/-- Counts and indices are words of 64 bits: they lie below this limit. -/
def wordLimit : Nat := UInt64.size

/-- The value of a nonempty run of ASCII digits. -/
def readDigits? (text : List Char) : Option Nat :=
  if text.isEmpty || !text.all Char.isDigit then none
  else some (Nat.ofDigitChars 10 text 0)

/-- The printed form of a number reads back as that number. -/
theorem readDigits?_toDigits (n : Nat) : readDigits? (Nat.toDigits 10 n) = some n := by
  have digits : (Nat.toDigits 10 n).all Char.isDigit = true :=
    List.all_eq_true.2 fun _ member => Nat.isDigit_of_mem_toDigits (by decide) (by decide) member
  have nonempty : (Nat.toDigits 10 n).isEmpty = false := by
    simp [Nat.toDigits_ne_nil]
  simp [readDigits?, digits, nonempty, Nat.ofDigitChars_ten_toDigits]

/-- A word written in decimal, after one optional plus sign. -/
def readWord? (text : List Char) : Option Nat :=
  let digits := match text with
    | '+' :: rest => rest
    | other => other
  (readDigits? digits).filter (· < wordLimit)

end Correlate.Text
