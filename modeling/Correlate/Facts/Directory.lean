/-
Module: Correlate.Facts.Directory
Purpose: Reading the relations that a directory holds.
Main exports: FactsError, Facts.readDirectory
-/
import Correlate.Facts.Relation
import Correlate.Files.Disk

namespace Correlate

/-- Why facts were not read. -/
inductive FactsError where
  | notADirectory (path : Path)
  | unreadable (path : Path)
deriving DecidableEq, Repr, Inhabited

def FactsError.message : FactsError → String
  | .notADirectory path => s!"facts path {path} is not a directory"
  | .unreadable path => s!"cannot read {path}"

namespace Facts

/-- Add a relation of a directory.  A relation without a file is empty. -/
def readRelation {m : Type → Type} [Monad m] (disk : Disk m) (directory : Path) (facts : Facts)
    (relation : Relation) : ExceptT FactsError m Facts := do
  let path := directory.join relation.fileName
  if ← disk.isPresent path then
    match ← disk.readText path with
    | some text => return facts.addText relation text
    | none => throw (.unreadable path)
  else return facts

/-- Read the relations of a directory. -/
def readDirectory {m : Type → Type} [Monad m] (disk : Disk m) (directory : Path) :
    ExceptT FactsError m Facts := do
  if ← disk.isDirectory directory then
    Relation.all.foldlM (readRelation disk directory) {}
  else throw (.notADirectory directory)

end Facts

end Correlate
