/-
Module: Correlate.Json.Decode
Purpose: Reading typed records out of JSON values.
Main exports: Json.fields?, Json.required?, Json.optional?, Json.defaulted?, Json.tagged?
-/
import Correlate.Json.Value
import Correlate.Text.Decimal

namespace Correlate.Json

/-!
A record is read from an object, where the order of the members is free, or from an array that
lists the values of its fields in the order of their declaration.  A decoder answers `none` for a
value that does not have its form.
-/

/-- The value of a field: absent where the record has no such member. -/
abbrev FieldValue := Option Json

/-- The only member with the given key; `none` if there are several. -/
def uniqueMember? (members : List (Option String × Json)) (key : String) : Option FieldValue :=
  match members.filter (·.1 = some key) with
  | [] => some none
  | [(_, value)] => some (some value)
  | _ => none

/-- The fields of a record in the order of `known`.  A key is given at most once, and a strict record
has no other keys.  In an array, fields at the end may be left out. -/
def fields? (strict : Bool) (known : List String) : Json → Option (List FieldValue)
  | .object members =>
      if members.all fun (key, _) => key.any fun key => known.contains key || !strict then
        known.mapM (uniqueMember? members)
      else none
  | .array items =>
      if items.length ≤ known.length then
        some (items.map some ++ List.replicate (known.length - items.length) none)
      else none
  | _ => none

/-- A field that must be present. -/
def required? {α : Type} (decode : Json → Option α) : FieldValue → Option α
  | some value => decode value
  | none => none

/-- A field that may be missing or null. -/
def optional? {α : Type} (decode : Json → Option α) : FieldValue → Option (Option α)
  | none => some none
  | some .null => some none
  | some value => (decode value).map some

/-- A field with a default value.  Null is no way to leave it out. -/
def defaulted? {α : Type} (default : α) (decode : Json → Option α) : FieldValue → Option α
  | none => some default
  | some value => decode value

/-- A text. -/
def text? : Json → Option String
  | .string content => content
  | _ => none

/-- A truth value. -/
def bool? : Json → Option Bool
  | .bool value => some value
  | _ => none

/-- A natural number below a limit, written without sign, point and exponent. -/
def natural? (limit : Nat) : Json → Option Nat
  | .number numeral =>
      let value := digitsValue numeral.whole
      if numeral.isPlain && !numeral.negative && value < limit then some value else none
  | _ => none

/-- A word of 32 bits. -/
def word32? : Json → Option Nat := natural? UInt32.size

/-- A word of 64 bits. -/
def word64? : Json → Option Nat := natural? Text.wordLimit

/-- A list. -/
def list? {α : Type} (decode : Json → Option α) : Json → Option (List α)
  | .array items => items.mapM decode
  | _ => none

/-- The members of an object in order. -/
def members? {α : Type} (decode : Json → Option α) : Json → Option (List (Option String × α))
  | .object members => members.mapM fun (key, value) => (decode value).map fun decoded => (key, decoded)
  | _ => none

/-- A value with a tag: an object with exactly one member of the tag's key, or an array that starts
with the tag.  The rest of the value keeps its form. -/
def tagged? (key : String) : Json → Option (Json × Json)
  | .object members =>
      match members.filter (·.1 = some key) with
      | [(_, tag)] => some (tag, .object (members.filter (·.1 ≠ some key)))
      | _ => none
  | .array (tag :: rest) => some (tag, .array rest)
  | _ => none

end Correlate.Json
