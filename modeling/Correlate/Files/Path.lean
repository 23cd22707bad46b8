/-
Module: Correlate.Files.Path
Purpose: Paths as text.
Main exports: Path.isOpenable, Path.components, Path.display, Path.parent?, Path.join,
Path.fileName
-/
import Correlate.Text.Segment

namespace Correlate

/-- A path as it was given.  Segments stand between slashes. -/
abbrev Path := String

namespace Path

/-- The segments of a path as written. -/
def segments (path : Path) : List String :=
  (Text.segments '/' path.toList).map .ofList

/-- A path that starts at the root of all directories. -/
def isAbsolute (path : Path) : Bool :=
  path.toList.head? = some '/'

/-- Longer names, in bytes, are no names of files. -/
def nameLimit : Nat := 255

/-- Paths of this length, in bytes, are too long. -/
def lengthLimit : Nat := 4096

/-- The path can stand for a file or directory at all. -/
def isOpenable (path : Path) : Bool :=
  !path.isEmpty && path.utf8ByteSize < lengthLimit && !path.toList.contains '\x00'

/-- A segment that leads nowhere else. -/
def isIdle (segment : String) : Bool :=
  segment.isEmpty || segment == "."

/-- The segments of a path that lead somewhere.  A leading root or point counts. -/
def components (path : Path) : List String :=
  let first :=
    if path.isAbsolute then ["/"]
    else if path.segments.head? = some "." then ["."]
    else []
  first ++ path.segments.filter fun segment => !isIdle segment

/-- A path without idle segments. -/
def display (path : Path) : String :=
  "/".intercalate path.components

/-- Segments, last one first, without the idle ones they start with.  A leading point of the path is
its last segment here and stays. -/
def dropIdle : List String → List String
  | [] => []
  | [only] => [only]
  | segment :: rest => if isIdle segment then dropIdle rest else segment :: rest

/-- The path of what contains a file, as far as the text of the path tells it; empty for a path of
one component. -/
def parent? (path : Path) : Option Path :=
  match path.components with
  | [] => none
  | ["/"] => none
  | _ =>
      match dropIdle ((dropIdle path.segments.reverse).drop 1) with
      | [] => some ""
      | [""] => some "/"
      | reversed => some ("/".intercalate reversed.reverse)

/-- A path that starts where another one ends. -/
def join (base rest : Path) : Path :=
  if rest.isAbsolute || base.isEmpty then rest
  else if base.toList.getLast? = some '/' then base ++ rest
  else s!"{base}/{rest}"

/-- The last component of a path. -/
def fileName (path : Path) : String :=
  (path.components.getLast?).getD ""

end Path

end Correlate
