/-
Module: Correlate.TypeName
Purpose: Type names as a programmer spells them and as compiled code names them.
Main exports: simplify, toBinary, unqualified, innermost, sameInnermost, isPrimitive, isBoxed,
  synthesize, stripQuotes
-/
import Correlate.Text.Blank
import Correlate.Text.Capital
import Correlate.Text.Segment

namespace Correlate.TypeName

open Text

/-!
A source type is spelled the way it was written: with type arguments, a nullability mark, an
ellipsis, a partial qualifier.  A compiled type is an erased binary name, in which a dollar sign
separates a nested type from the type around it.  Both spellings meet in the innermost simple name.
-/

/-- The primitive types. -/
def primitives : List String :=
  ["boolean", "byte", "char", "short", "int", "long", "float", "double", "void"]

/-- The object types that boxing introduces without the source naming them. -/
def boxed : List String :=
  ["java.lang.Boolean", "java.lang.Byte", "java.lang.Character", "java.lang.Double",
   "java.lang.Float", "java.lang.Integer", "java.lang.Long", "java.lang.Short"]

/-- The characters outside all angle brackets that are not blank, where `depth` brackets are open at
the start.  A closing bracket without an opening one is dropped and closes nothing. -/
def outsideBrackets : Nat → List Char → List Char
  | _, [] => []
  | depth, c :: rest =>
      if c = '<' then outsideBrackets (depth + 1) rest
      else if c = '>' then outsideBrackets (depth - 1) rest
      else if depth = 0 && !isBlank c then c :: outsideBrackets depth rest
      else outsideBrackets depth rest

/-- A trailing ellipsis stands for one array dimension. -/
def ellipsisToArray (text : List Char) : List Char :=
  match dropEnding? ['.', '.', '.'] text with
  | some element => element ++ ['[', ']']
  | none => text

/-- A text without the question marks at its end. -/
def dropQuestionMarks (text : List Char) : List Char :=
  (text.reverse.dropWhile (· = '?')).reverse

/-- The rule of `simplify` on characters. -/
def simplifyChars (text : List Char) : List Char :=
  dropQuestionMarks (ellipsisToArray (outsideBrackets 0 text))

/-- A spelling without type arguments and blanks, its ellipsis written as an array dimension and its
nullability marks taken off: `Map<K, List<V>>[]` becomes `Map[]`. -/
def simplify (spelling : String) : String :=
  .ofList (simplifyChars spelling.toList)

/-- A segment that starts with a capital names a type. -/
def namesType : List Char → Bool
  | [] => false
  | c :: _ => isCapital c

/-- The segments after the first, each after its separator: a dollar sign once a type has been
named, a point before that. -/
def nestedSegments : Bool → List (List Char) → List Char
  | _, [] => []
  | insideType, segment :: rest =>
      (if insideType then '$' else '.') ::
        (segment ++ nestedSegments (insideType || namesType segment) rest)

/-- Segments put together to a binary name. -/
def ofSegments : List (List Char) → List Char
  | [] => []
  | first :: rest => first ++ nestedSegments (namesType first) rest

/-- A dotted name in binary form: a point after the first segment that starts with a capital denotes
nesting and becomes a dollar sign. -/
def toBinary (name : String) : String :=
  .ofList (ofSegments (segments '.' name.toList))

/-- What follows the last point of a name. -/
def unqualified (name : String) : String :=
  .ofList (afterLast '.' name.toList)

/-- What follows the last point, and in that the last dollar sign, unless nothing follows it. -/
def innermostChars (name : List Char) : List Char :=
  let simple := afterLast '.' name
  let inner := afterLast '$' simple
  if inner.isEmpty then simple else inner

/-- The innermost simple name of a compiled type. -/
def innermost (name : String) : String :=
  .ofList (innermostChars name.toList)

/-- The innermost simple name of a source type. -/
def innermostOfSource (spelling : String) : String :=
  innermost (simplify spelling)

/-- A source type and a compiled type have the same innermost simple name. -/
def sameInnermost (spelling name : String) : Bool :=
  innermostOfSource spelling == innermost name

/-- A reversed name without the array dimensions it starts with. -/
def dropReversedDimensions : List Char → List Char
  | ']' :: '[' :: rest => dropReversedDimensions rest
  | rest => rest

/-- A name without the array dimensions at its end. -/
def elementChars (name : List Char) : List Char :=
  (dropReversedDimensions name.reverse).reverse

/-- A name without the array dimensions at its end. -/
def element (name : String) : String :=
  .ofList (elementChars name.toList)

/-- The array dimensions at the end of a name. -/
def dimensions (name : String) : String :=
  .ofList (name.toList.drop (elementChars name.toList).length)

/-- How often a pair of square brackets occurs. -/
def countBrackets : List Char → Nat
  | '[' :: ']' :: rest => countBrackets rest + 1
  | _ :: rest => countBrackets rest
  | [] => 0

/-- The array dimensions of a compiled type, wherever they stand in its name. -/
def dimensionCount (name : String) : Nat :=
  countBrackets name.toList

/-- The text of a number of array dimensions. -/
def dimensionText (count : Nat) : String :=
  .ofList (List.replicate count ['[', ']']).flatten

/-- A primitive type or an array of one. -/
def isPrimitive (name : String) : Bool :=
  primitives.contains (element name)

/-- One of the object types that boxing introduces. -/
def isBoxed (name : String) : Bool :=
  boxed.contains name

/-- A compiled type with the detail of its source spelling: where the compiled name ends with the
unqualified source name, that ending is replaced with the spelling as written. -/
def synthesize (spelling name : String) : String :=
  let simple := (unqualified (simplify spelling)).toList
  match dropEnding? simple name.toList with
  | some qualifier => if simple.isEmpty then name else .ofList qualifier ++ spelling
  | none => name

/-- The text between two copies of `quote` at both ends. -/
def insideQuotes? (quote : Char) (text : List Char) : Option (List Char) :=
  match text with
  | first :: rest => if first = quote then dropEnding? [quote] rest else none
  | [] => none

/-- A literal without the double or else the single quotes around it. -/
def stripQuotes (literal : String) : String :=
  match insideQuotes? '"' literal.toList <|> insideQuotes? '\'' literal.toList with
  | some inside => .ofList inside
  | none => literal

end Correlate.TypeName
