/-
Module: Correlate.Files.Disk
Purpose: What a run asks of the place where files are kept.
Main exports: Disk, Disk.isPresent
-/
import Correlate.Files.Path

namespace Correlate

/-- Access to files and directories.  The operations answer in a monad, so that files in memory and
files of the machine serve alike. -/
structure Disk (m : Type → Type) where
  isFile : Path → m Bool
  isDirectory : Path → m Bool
  /-- The content of a file, if it is text. -/
  readText : Path → m (Option String)
  /-- The components of the paths of all files below a directory, in any order.  A directory that
  cannot be opened counts as a file. -/
  filesBelow : Path → m (List (List String))
  /-- Make a directory and those around it; false if that fails. -/
  makeDirectories : Path → m Bool
  /-- Give a file a new content; false if that fails. -/
  writeText : Path → String → m Bool

/-- There is a file or directory at the path. -/
def Disk.isPresent {m : Type → Type} [Monad m] (disk : Disk m) (path : Path) : m Bool := do
  if ← disk.isFile path then pure true else disk.isDirectory path

end Correlate
