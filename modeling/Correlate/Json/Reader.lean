/-
Module: Correlate.Json.Reader
Purpose: Reading JSON text.
Main exports: Json.parse?
-/
import Correlate.Json.Value

namespace Correlate.Json

/-!
The reader accepts the grammar of RFC 8259 and nothing else: no comments, no trailing commas, no
leading zeros, no raw control characters in strings.  Each step takes a beginning of the text and
gives what it stands for together with the rest.
-/

/-- The blanks between the tokens of a JSON text. -/
def isGap (c : Char) : Bool :=
  c = ' ' || c = '\t' || c = '\n' || c = '\r'

/-- The text after the blanks at its start. -/
def skipGap (text : List Char) : List Char :=
  text.dropWhile isGap

/-- The value of a hexadecimal digit. -/
def hexDigit? (c : Char) : Option Nat :=
  if '0' ≤ c && c ≤ '9' then some (c.toNat - '0'.toNat)
  else if 'a' ≤ c && c ≤ 'f' then some (c.toNat - 'a'.toNat + 10)
  else if 'A' ≤ c && c ≤ 'F' then some (c.toNat - 'A'.toNat + 10)
  else none

/-- The value of four hexadecimal digits. -/
def hexUnit? (a b c d : Char) : Option Nat := do
  let a ← hexDigit? a
  let b ← hexDigit? b
  let c ← hexDigit? c
  let d ← hexDigit? d
  pure (((a * 16 + b) * 16 + c) * 16 + d)

/-- The character that a backslash and one more character stand for. -/
def shortEscape? : Char → Option Char
  | '"' => some '"'
  | '\\' => some '\\'
  | '/' => some '/'
  | 'b' => some '\x08'
  | 'f' => some '\x0c'
  | 'n' => some '\n'
  | 'r' => some '\r'
  | 't' => some '\t'
  | _ => none

/-- A unit that starts a surrogate pair. -/
def isHighSurrogate (unit : Nat) : Bool := 0xD800 ≤ unit && unit < 0xDC00

/-- A unit that ends a surrogate pair. -/
def isLowSurrogate (unit : Nat) : Bool := 0xDC00 ≤ unit && unit < 0xE000

/-- The character that a surrogate pair stands for. -/
def pairedChar (high low : Nat) : Char :=
  .ofNat (0x10000 + (high - 0xD800) * 0x400 + (low - 0xDC00))

/-- One more character in front of a string that has been read. -/
def consChar (c : Char) (read : Option (List Char) × List Char) : Option (List Char) × List Char :=
  (read.1.map (c :: ·), read.2)

/-- The characters of a string up to its closing quote, and the text after that.  The characters are
absent where a surrogate stands alone. -/
def readStringBody? : List Char → Option (Option (List Char) × List Char)
  | [] => none
  | '"' :: rest => some (some [], rest)
  | '\\' :: 'u' :: a :: b :: c :: d :: rest => do
      let unit ← hexUnit? a b c d
      if isHighSurrogate unit then
        match rest with
        | '\\' :: 'u' :: e :: f :: g :: h :: after =>
            let second ← hexUnit? e f g h
            if isLowSurrogate second then
              (readStringBody? after).map (consChar (pairedChar unit second))
            else
              let (_, remaining) ← readStringBody? ('\\' :: 'u' :: e :: f :: g :: h :: after)
              pure (none, remaining)
        | other =>
            let (_, remaining) ← readStringBody? other
            pure (none, remaining)
      else if isLowSurrogate unit then
        let (_, remaining) ← readStringBody? rest
        pure (none, remaining)
      else
        (readStringBody? rest).map (consChar (.ofNat unit))
  | '\\' :: c :: rest => do
      let escaped ← shortEscape? c
      (readStringBody? rest).map (consChar escaped)
  | c :: rest =>
      if c.toNat < 0x20 || c = '\\' then none
      else (readStringBody? rest).map (consChar c)
termination_by text => text.length

/-- At least one digit. -/
def readDigitRun? (text : List Char) : Option (List Char × List Char) :=
  let digits := text.takeWhile Char.isDigit
  if digits.isEmpty then none else some (digits, text.dropWhile Char.isDigit)

/-- The digits before the point: a zero stands alone. -/
def readWhole? : List Char → Option (List Char × List Char)
  | '0' :: rest =>
      match rest with
      | c :: _ => if c.isDigit then none else some (['0'], rest)
      | [] => some (['0'], rest)
  | text => readDigitRun? text

/-- A point and digits, if a point follows. -/
def readFraction? : List Char → Option (Option (List Char) × List Char)
  | '.' :: rest => (readDigitRun? rest).map fun (digits, after) => (some digits, after)
  | text => some (none, text)

/-- The sign and digits of an exponent. -/
def readSigned? : List Char → Option (Int × List Char)
  | '+' :: rest => (readDigitRun? rest).map fun (digits, after) => (digitsValue digits, after)
  | '-' :: rest => (readDigitRun? rest).map fun (digits, after) => (-digitsValue digits, after)
  | text => (readDigitRun? text).map fun (digits, after) => (digitsValue digits, after)

/-- The letter and number of an exponent, if such a letter follows. -/
def readExponent? : List Char → Option (Option Int × List Char)
  | 'e' :: rest => (readSigned? rest).map fun (value, after) => (some value, after)
  | 'E' :: rest => (readSigned? rest).map fun (value, after) => (some value, after)
  | text => some (none, text)

/-- A number. -/
def readNumeral? (text : List Char) : Option (Numeral × List Char) := do
  let (negative, text) := match text with
    | '-' :: rest => (true, rest)
    | other => (false, other)
  let (whole, text) ← readWhole? text
  let (fraction, text) ← readFraction? text
  let (exponent, text) ← readExponent? text
  pure ({ negative, whole, fraction, exponent }, text)

/-- The given word, and the value it stands for. -/
def readWord? (word : String) (value : Json) (text : List Char) : Option (Json × List Char) :=
  if word.toList.isPrefixOf text then some (value, text.drop word.length) else none

mutual

/-- A value, with blanks before it.  The fuel bounds how many values and separators are read. -/
def readValue? : Nat → List Char → Option (Json × List Char)
  | 0, _ => none
  | fuel + 1, text =>
      match skipGap text with
      | '"' :: rest =>
          (readStringBody? rest).map fun (content, after) => (.string (content.map .ofList), after)
      | '[' :: rest =>
          match skipGap rest with
          | ']' :: after => some (.array [], after)
          | _ => (readItems? fuel rest).map fun (items, after) => (.array items, after)
      | '{' :: rest =>
          match skipGap rest with
          | '}' :: after => some (.object [], after)
          | _ => (readMembers? fuel rest).map fun (members, after) => (.object members, after)
      | 'n' :: rest => readWord? "null" .null ('n' :: rest)
      | 't' :: rest => readWord? "true" (.bool true) ('t' :: rest)
      | 'f' :: rest => readWord? "false" (.bool false) ('f' :: rest)
      | other => (readNumeral? other).map fun (value, after) => (.number value, after)

/-- The items of an array up to its closing bracket. -/
def readItems? : Nat → List Char → Option (List Json × List Char)
  | 0, _ => none
  | fuel + 1, text => do
      let (item, rest) ← readValue? fuel text
      match skipGap rest with
      | ',' :: after =>
          let (items, remaining) ← readItems? fuel after
          pure (item :: items, remaining)
      | ']' :: after => pure ([item], after)
      | _ => none

/-- The members of an object up to its closing brace. -/
def readMembers? : Nat → List Char → Option (List (Option String × Json) × List Char)
  | 0, _ => none
  | fuel + 1, text =>
      match skipGap text with
      | '"' :: rest => do
          let (key, rest) ← readStringBody? rest
          match skipGap rest with
          | ':' :: rest =>
              let (value, rest) ← readValue? fuel rest
              match skipGap rest with
              | ',' :: after =>
                  let (members, remaining) ← readMembers? fuel after
                  pure ((key.map .ofList, value) :: members, remaining)
              | '}' :: after => pure ([(key.map .ofList, value)], after)
              | _ => none
          | _ => none
      | _ => none

end

/-- The value of a JSON text, with nothing but blanks around it.  Each reading step but the last
consumes a character, and at most two steps share one, so the fuel never runs out. -/
def parse? (text : String) : Option Json := do
  let chars := text.toList
  let (value, rest) ← readValue? (2 * chars.length + 2) chars
  if (skipGap rest).isEmpty then some value else none

end Correlate.Json
