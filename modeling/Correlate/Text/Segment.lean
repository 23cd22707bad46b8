/-
Module: Correlate.Text.Segment
Purpose: Cutting text at a separator and taking known ends off it.
Main exports: segments, afterLast, dropEnding?, dropLeading?, lines
-/

namespace Correlate.Text

/-- The pieces of a text between the separators: one more than there are separators. -/
def segments (separator : Char) : List Char → List (List Char)
  | [] => [[]]
  | c :: rest =>
      if c = separator then [] :: segments separator rest
      else match segments separator rest with
        | [] => [[c]]
        | first :: others => (c :: first) :: others

/-- The pieces put back together. -/
def joinSegments (separator : Char) : List (List Char) → List Char
  | [] => []
  | [only] => only
  | first :: second :: others => first ++ separator :: joinSegments separator (second :: others)

theorem segments_ne_nil (separator : Char) (text : List Char) : segments separator text ≠ [] := by
  cases text with
  | nil => simp [segments]
  | cons c rest =>
      rw [segments]
      split
      · simp
      · split <;> simp

/-- Cutting loses nothing. -/
theorem joinSegments_segments (separator : Char) (text : List Char) :
    joinSegments separator (segments separator text) = text := by
  induction text with
  | nil => rfl
  | cons c rest ih =>
      rw [segments]
      split
      · next same =>
        cases pieces : segments separator rest with
        | nil => exact absurd pieces (segments_ne_nil separator rest)
        | cons first others =>
            rw [pieces] at ih
            simp [joinSegments, ih, same]
      · cases pieces : segments separator rest with
        | nil => exact absurd pieces (segments_ne_nil separator rest)
        | cons first others =>
            rw [pieces] at ih
            cases others <;> simp_all [joinSegments]

/-- What follows the last separator; the whole text if there is none. -/
def afterLast (separator : Char) (text : List Char) : List Char :=
  (text.reverse.takeWhile (· ≠ separator)).reverse

/-- A text without the given beginning, if it has that beginning. -/
def dropLeading? : List Char → List Char → Option (List Char)
  | [], text => some text
  | _ :: _, [] => none
  | c :: beginning, d :: text => if c = d then dropLeading? beginning text else none

theorem dropLeading?_eq_some_iff {beginning text rest : List Char} :
    dropLeading? beginning text = some rest ↔ text = beginning ++ rest := by
  induction beginning generalizing text with
  | nil => simp [dropLeading?]
  | cons c beginning ih =>
      cases text with
      | nil => simp [dropLeading?]
      | cons d text =>
          by_cases same : c = d
          · simp [dropLeading?, same, ih]
          · simp [dropLeading?, same, Ne.symm same]

/-- A text without the given ending, if it has that ending. -/
def dropEnding? (ending text : List Char) : Option (List Char) :=
  (dropLeading? ending.reverse text.reverse).map List.reverse

theorem dropEnding?_eq_some_iff {ending text rest : List Char} :
    dropEnding? ending text = some rest ↔ text = rest ++ ending := by
  rw [dropEnding?, Option.map_eq_some_iff]
  constructor
  · rintro ⟨reversed, cut, rfl⟩
    have flipped := congrArg List.reverse (dropLeading?_eq_some_iff.1 cut)
    simpa using flipped
  · rintro rfl
    exact ⟨rest.reverse, dropLeading?_eq_some_iff.2 (by simp), by simp⟩

/-- A line without the carriage return that belongs to its line feed. -/
def dropReturn (line : List Char) : List Char :=
  (dropEnding? ['\r'] line).getD line

/-- The lines a list of pieces between line feeds stands for.  Only a piece that a line feed ends
loses its carriage return, and an empty piece after the last line feed is no line. -/
def linesOfSegments : List (List Char) → List (List Char)
  | [] => []
  | [last] => if last.isEmpty then [] else [last]
  | piece :: next :: others => dropReturn piece :: linesOfSegments (next :: others)

/-- The lines of a text, ended by a line feed or by a carriage return and a line feed. -/
def lines (text : List Char) : List (List Char) :=
  linesOfSegments (segments '\n' text)

end Correlate.Text
