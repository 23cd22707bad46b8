/-
Module: Correlate.Files.Tree
Purpose: Files and directories in memory.
Main exports: FileTree, FileTree.addFile, FileTree.addDirectory, FileTree.disk
-/
import Correlate.Files.Disk
import Correlate.Grouping

namespace Correlate

/-- Where something is in a tree: the names on the way from the top. -/
abbrev Place := List String

/-- Files and directories.  A directory around another one is a directory too. -/
structure FileTree where
  /-- The directory that relative paths start from. -/
  start : Place := []
  directories : List Place := []
  /-- Each file with its content, which is absent where it is no text. -/
  files : List (Place × Option String) := []
deriving DecidableEq, Repr, Inhabited

namespace FileTree

/-- The top, the start and what is around the start are directories. -/
def isDirectoryAt (tree : FileTree) (place : Place) : Bool :=
  place.isPrefixOf tree.start || tree.directories.contains place

/-- The content of the file at a place, if there is a file. -/
def fileAt? (tree : FileTree) (place : Place) : Option (Option String) :=
  tree.files.lookup place

/-- Where a path starts. -/
def origin (tree : FileTree) (path : Path) : Place :=
  if path.isAbsolute then [] else tree.start

/-- The place one segment further.  Above the top is the top. -/
def next? (place : Place) (segment : String) : Option Place :=
  if Path.isIdle segment then some place
  else if segment = ".." then some place.dropLast
  else if Path.nameLimit < segment.utf8ByteSize then none
  else some (place ++ [segment])

/-- Follow one segment of a path.  Only directories lead on. -/
def follow (tree : FileTree) (place : Place) (segment : String) : Option Place :=
  if tree.isDirectoryAt place then next? place segment else none

/-- The place that a path leads to. -/
def locate? (tree : FileTree) (path : Path) : Option Place :=
  if path.isOpenable then path.segments.foldlM tree.follow (tree.origin path) else none

/-- The content of the file that a path leads to. -/
def fileOn? (tree : FileTree) (path : Path) : Option (Option String) :=
  (tree.locate? path).bind tree.fileAt?

/-- The path leads to a directory. -/
def isDirectoryOn (tree : FileTree) (path : Path) : Bool :=
  (tree.locate? path).any tree.isDirectoryAt

/-- The path leads to a file. -/
def isFileOn (tree : FileTree) (path : Path) : Bool :=
  (tree.fileOn? path).isSome

/-- The names that lead from a place to another one below it. -/
def placeBelow? (top place : Place) : Option Place :=
  if top.isPrefixOf place && top.length < place.length then some (place.drop top.length) else none

/-- The directory that some names lead to from the one at a path can be opened under its own path. -/
def opensBelow (path : Path) (names : Place) : Bool :=
  names.isEmpty || (path.join ("/".intercalate names)).isOpenable

/-- The names that lead a walk from the directory at a path, which is `top`, to a place below it.  The
walk enters only directories that it can open. -/
def walkTo? (path : Path) (top place : Place) : Option Place :=
  (placeBelow? top place).filter fun names => opensBelow path names.dropLast

/-- What a walk from the directory that a path leads to ends at: the files, and the directories that
cannot be opened. -/
def placesBelow (tree : FileTree) (path : Path) : List Place :=
  match tree.locate? path with
  | some top =>
      let files := tree.files.filterMap fun (place, _) => walkTo? path top place
      let directories := tree.directories.filterMap (walkTo? path top)
      files ++ directories.filter fun names => !opensBelow path names
  | none => []

/-- The directory a segment leads to, which is made if there is nothing yet. -/
def enter (reached : FileTree × Place) (segment : String) : Option (FileTree × Place) := do
  let (tree, place) := reached
  let place ← next? place segment
  if tree.isDirectoryAt place then some (tree, place)
  else if (tree.fileAt? place).isSome then none
  else some ({ tree with directories := tree.directories ++ [place] }, place)

/-- The tree with all directories on a path. -/
def makeDirectories? (tree : FileTree) (path : Path) : Option FileTree :=
  if path.isOpenable then (path.segments.foldlM enter (tree, tree.origin path)).map Prod.fst
  else none

/-- The tree with a file of the given content at the end of a path through existing directories. -/
def putFile? (tree : FileTree) (path : Path) (content : Option String) : Option FileTree :=
  (tree.locate? path).bind fun place =>
    if tree.isDirectoryAt place then none
    else some { tree with files := assign place content tree.files }

/-- Add a directory and those around it. -/
def addDirectory (path : Path) (tree : FileTree) : FileTree :=
  (tree.makeDirectories? path).getD tree

/-- Add a file, and the directories around it, with the given content if that is text. -/
def addFile (path : Path) (content : Option String) (tree : FileTree) : FileTree :=
  let around := tree.addDirectory (path.parent?.getD "")
  (around.putFile? path content).getD around

/-- A change of the tree, and whether it was possible. -/
def attempt (change : FileTree → Option FileTree) : StateM FileTree Bool := fun tree =>
  match change tree with
  | some changed => (true, changed)
  | none => (false, tree)

/-- Access to the files of a tree. -/
def disk : Disk (StateM FileTree) where
  isFile path := return (← get).isFileOn path
  isDirectory path := return (← get).isDirectoryOn path
  readText path := return ((← get).fileOn? path).join
  filesBelow path := return (← get).placesBelow path
  makeDirectories path := attempt (·.makeDirectories? path)
  writeText path text := attempt (·.putFile? path (some text))

end FileTree

end Correlate
