/-
Module: Correlate.Json.Value
Purpose: The values a JSON text stands for.
Main exports: Json, Json.Numeral, Json.depth, Json.readable, Json.isSound
-/
import Correlate.Rounding

namespace Correlate

/-- A number as it is written. -/
structure Json.Numeral where
  negative : Bool
  /-- The digits in front of the point. -/
  whole : List Char
  /-- The digits behind the point, if there is a point. -/
  fraction : Option (List Char)
  /-- The power of ten that the digits are taken times, if one is written. -/
  exponent : Option Int
deriving DecidableEq, Repr, Inhabited

/-- A JSON value.  A string is absent where its escapes leave half of a surrogate pair alone, so that
no text corresponds to it: such a string can be skipped but not read. -/
inductive Json where
  | null
  | bool (value : Bool)
  | number (value : Json.Numeral)
  | string (text : Option String)
  | array (items : List Json)
  | object (members : List (Option String × Json))
deriving Repr, Inhabited

namespace Json

/-- A natural number as a value. -/
def natural (n : Nat) : Json :=
  .number ⟨false, Nat.toDigits 10 n, none, none⟩

/-- A text as a value. -/
def text (content : String) : Json :=
  .string (some content)

/-- An object with the given members. -/
def record (members : List (String × Json)) : Json :=
  .object (members.map fun (key, value) => (some key, value))

/-- A value that may be missing, with null for a missing one. -/
def orNull {α : Type} (encode : α → Json) : Option α → Json
  | some value => encode value
  | none => .null

/-- The value of a run of digits. -/
def digitsValue (digits : List Char) : Nat :=
  Nat.ofDigitChars 10 digits 0

namespace Numeral

/-- A plain numeral has neither point nor exponent. -/
def isPlain (n : Numeral) : Bool :=
  n.fraction.isNone && n.exponent.isNone

/-- Append digits to a word while the result is a word of 64 bits, and give the other digits. -/
def extendWord (word : Nat) : List Char → Nat × List Char
  | [] => (word, [])
  | digit :: rest =>
      let next := Nat.ofDigitChars 10 [digit] word
      if next < UInt64.size then extendWord next rest else (word, digit :: rest)

/-- The leading digits of a numeral as a word, and the power of ten they are taken times.  Digits
that do not fit count as zeros. -/
def leading (n : Numeral) : Nat × Int :=
  let (whole, left) := extendWord 0 n.whole
  let places := n.fraction.getD []
  let (word, unused) := extendWord whole places
  let taken := places.length - unused.length
  (word, (left.length : Int) - taken + n.exponent.getD 0)

/-- The power of ten that the greatest double lies above. -/
def greatestPower : Nat := 308

/-- The leading digits and the power of ten, each rounded to a double, have a product within the
range of a double: it is below the midpoint between the greatest double and the next power of two. -/
def inRange (n : Numeral) : Bool :=
  let (word, power) := n.leading
  if word = 0 || power < 0 then true
  else if greatestPower < power then false
  else
    nearestDouble word * nearestDouble (Nat.pow 10 power.toNat) < (1 <<< 1024) - (1 <<< 970)

end Numeral

mutual

/-- How many arrays and objects enclose the innermost value, this value included. -/
def depth : Json → Nat
  | .array items => depthOfItems items + 1
  | .object members => depthOfMembers members + 1
  | _ => 0

def depthOfItems : List Json → Nat
  | [] => 0
  | item :: rest => max (depth item) (depthOfItems rest)

def depthOfMembers : List (Option String × Json) → Nat
  | [] => 0
  | (_, value) :: rest => max (depth value) (depthOfMembers rest)

end

mutual

/-- Every string in the value has a text and every number is in range. -/
def readable : Json → Bool
  | .number value => value.inRange
  | .string text => text.isSome
  | .array items => readableItems items
  | .object members => readableMembers members
  | _ => true

def readableItems : List Json → Bool
  | [] => true
  | item :: rest => readable item && readableItems rest

def readableMembers : List (Option String × Json) → Bool
  | [] => true
  | (key, value) :: rest => key.isSome && readable value && readableMembers rest

end

/-- Values that nest this deep are refused. -/
def nestingLimit : Nat := 128

/-- The whole value can be read: it nests less deep than the limit, and its strings and numbers are
readable, those of skipped members included. -/
def isSound (json : Json) : Bool :=
  json.readable && json.depth < nestingLimit

end Json

end Correlate
