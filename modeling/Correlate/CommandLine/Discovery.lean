/-
Module: Correlate.CommandLine.Discovery
Purpose: The input files of a run.
Main exports: InputFile, discover
-/
import Correlate.Files.Disk

namespace Correlate.CommandLine

/-- An input file and the path it is reported with. -/
structure InputFile where
  path : Path
  display : String
deriving DecidableEq, Repr, Inhabited

/-- The first of two lists of names in the order of their components. -/
def precedes (one other : List String) : Bool :=
  !decide (other < one)

/-- The files below a directory whose names are accepted, in the order of their components.  They are
reported as seen from the directory. -/
def filesIn (root : Path) (accepts : String → Bool) (below : List (List String)) : List InputFile :=
  let accepted := below.filter fun names => names.getLast?.any accepts
  (accepted.mergeSort precedes).map fun names =>
    let display := "/".intercalate names
    { path := root.join display, display }

/-- The input files that one path stands for: a file for itself, whatever its name, and a directory
for the files in it.  Where there is neither, the path is the error. -/
def discoverOne {m : Type → Type} [Monad m] (disk : Disk m) (accepts : String → Bool)
    (root : Path) : ExceptT Path m (List InputFile) := do
  if ← disk.isFile root then return [{ path := root, display := root.display }]
  else if ← disk.isDirectory root then
    return filesIn root accepts (← disk.filesBelow root)
  else throw root

/-- The input files that some paths stand for. -/
def discover {m : Type → Type} [Monad m] (disk : Disk m) (accepts : String → Bool) :
    List Path → ExceptT Path m (List InputFile)
  | [] => return []
  | root :: rest => do
      let found ← discoverOne disk accepts root
      return found ++ (← discover disk accepts rest)

end Correlate.CommandLine
