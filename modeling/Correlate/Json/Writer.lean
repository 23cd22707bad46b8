/-
Module: Correlate.Json.Writer
Purpose: Writing JSON text.
Main exports: Json.pretty, Json.compact
-/
import Correlate.Json.Value

namespace Correlate.Json

/-- A hexadecimal digit, with small letters. -/
def hexDigit (n : Nat) : Char :=
  (n % 16).digitChar

/-- A character inside a string.  Quotes, backslashes and control characters below the blank are
escaped and all else stands for itself. -/
def escapeChar (c : Char) : List Char :=
  match c with
  | '"' => ['\\', '"']
  | '\\' => ['\\', '\\']
  | '\x08' => ['\\', 'b']
  | '\x0c' => ['\\', 'f']
  | '\n' => ['\\', 'n']
  | '\r' => ['\\', 'r']
  | '\t' => ['\\', 't']
  | other =>
      if other.toNat < 0x20 then
        ['\\', 'u', '0', '0', hexDigit (other.toNat / 16), hexDigit other.toNat]
      else [other]

/-- A text between quotes. -/
def quote (content : String) : String :=
  "\"" ++ .ofList (content.toList.flatMap escapeChar) ++ "\""

/-- A number: its sign and digits, then the point and the exponent if it has them. -/
def Numeral.write (n : Numeral) : String :=
  let sign := if n.negative then "-" else ""
  let places := match n.fraction with
    | some digits => "." ++ .ofList digits
    | none => ""
  let power := match n.exponent with
    | some power => s!"e{power}"
    | none => ""
  sign ++ .ofList n.whole ++ places ++ power

/-- A string; one without a text is written like a missing value. -/
def writeString : Option String → String
  | some content => quote content
  | none => "null"

/-- The key of a member. -/
def writeKey (key : Option String) : String :=
  quote (key.getD "")

mutual

/-- The text of a value without blanks between the tokens. -/
def compact : Json → String
  | .null => "null"
  | .bool value => if value then "true" else "false"
  | .number value => value.write
  | .string content => writeString content
  | .array items => "[" ++ ",".intercalate (compactItems items) ++ "]"
  | .object members => "\x7b" ++ ",".intercalate (compactMembers members) ++ "\x7d"

def compactItems : List Json → List String
  | [] => []
  | item :: rest => compact item :: compactItems rest

def compactMembers : List (Option String × Json) → List String
  | [] => []
  | (key, value) :: rest => (writeKey key ++ ":" ++ compact value) :: compactMembers rest

end

/-- Two blanks for each level. -/
def indentation (level : Nat) : String :=
  .ofList (List.replicate (2 * level) ' ')

/-- Entries between brackets, each on a line of its own; brackets without entries stay together. -/
def block (opening closing : String) (level : Nat) (entries : List String) : String :=
  if entries.isEmpty then opening ++ closing
  else
    let separator := ",\n" ++ indentation (level + 1)
    opening ++ "\n" ++ indentation (level + 1) ++ separator.intercalate entries ++ "\n" ++
      indentation level ++ closing

mutual

/-- The text of a value that stands at the given level, with one entry on each line. -/
def prettyAt (level : Nat) : Json → String
  | .null => "null"
  | .bool value => if value then "true" else "false"
  | .number value => value.write
  | .string content => writeString content
  | .array items => block "[" "]" level (prettyItems (level + 1) items)
  | .object members => block "\x7b" "\x7d" level (prettyMembers (level + 1) members)

def prettyItems (level : Nat) : List Json → List String
  | [] => []
  | item :: rest => prettyAt level item :: prettyItems level rest

def prettyMembers (level : Nat) : List (Option String × Json) → List String
  | [] => []
  | (key, value) :: rest =>
      (writeKey key ++ ": " ++ prettyAt level value) :: prettyMembers level rest

end

/-- The text of a value with one entry on each line and two blanks of indentation for each level. -/
def pretty (value : Json) : String :=
  prettyAt 0 value

end Correlate.Json
