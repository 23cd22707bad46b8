/-
Module: Correlate.Text.Blank
Purpose: The blank characters of source spellings.
Main exports: isBlank, trimBlanks
-/

namespace Correlate.Text

/-- The code point ranges of the Unicode property White_Space, both ends included. -/
def blankRanges : List (Nat × Nat) :=
  [(0x9, 0xD), (0x20, 0x20), (0x85, 0x85), (0xA0, 0xA0), (0x1680, 0x1680), (0x2000, 0x200A),
   (0x2028, 0x2029), (0x202F, 0x202F), (0x205F, 0x205F), (0x3000, 0x3000)]

/-- A character is blank when it has the Unicode property White_Space. -/
def isBlank (c : Char) : Bool :=
  blankRanges.any fun range => range.1 ≤ c.toNat && c.toNat ≤ range.2

/-- The blanks a keyboard can type are blank here too. -/
theorem isBlank_of_isWhitespace {c : Char} (typed : c.isWhitespace = true) : isBlank c = true := by
  simp only [Char.isWhitespace, Bool.or_eq_true, decide_eq_true_eq] at typed
  rcases typed with ((rfl | rfl) | rfl) | rfl <;> decide

/-- Characters without the blanks at both ends. -/
def trimBlanks (text : List Char) : List Char :=
  ((text.dropWhile isBlank).reverse.dropWhile isBlank).reverse

end Correlate.Text
