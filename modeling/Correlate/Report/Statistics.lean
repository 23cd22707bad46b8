/-
Module: Correlate.Report.Statistics
Purpose: How many source elements of each kind are matched.
Main exports: Statistics, Statistics.collect, Statistics.unmatched, Statistics.table
-/
import Correlate.Report.Percentage
import Correlate.Source.File

namespace Correlate

/-- The kinds that are counted. -/
def countedKinds : List ElementKind :=
  [.type, .field, .method, .lambda, .invocation, .allocation, .fieldAccess, .methodRef, .cast]

/-- How many elements there are and how many of them are matched. -/
structure Tally where
  matched : Nat := 0
  all : Nat := 0
deriving DecidableEq, Repr, Inhabited

/-- The tallies of the counted kinds. -/
abbrev Statistics := List (ElementKind × Tally)

/-- An element counts if the source declares it.  Instance initializer blocks do not, for they have
no compiled method of their own. -/
def Source.File.counts (file : Source.File) (element : Source.Ref) : Bool :=
  file.isAuthoritative element &&
    match element with
    | ⟨.method, index⟩ =>
        let method := file.methodAt ⟨index⟩
        !method.implicit && method.kind ≠ .instanceInitializer
    | _ => true

namespace Statistics

/-- The tally of a kind in some files. -/
def tally (files : List Source.File) (kind : ElementKind) : Tally :=
  let counted := files.flatMap fun file =>
    ((file.elements kind).filter file.counts).map fun element => (file, element)
  { matched := counted.countP fun (file, element) => file.isLinked element
    all := counted.length }

/-- The statistics of some files. -/
def collect (files : List Source.File) : Statistics :=
  countedKinds.map fun kind => (kind, tally files kind)

/-- The tally of a kind; nothing for a kind that is not counted. -/
def ofKind (statistics : Statistics) (kind : ElementKind) : Tally :=
  (statistics.lookup kind).getD {}

/-- How many counted elements are not matched. -/
def unmatched (statistics : Statistics) : Nat :=
  statistics.foldl (fun count (_, tally) => count + (tally.all - tally.matched)) 0

/-- A text filled up with blanks at the end. -/
def padEnd (width : Nat) (text : String) : String :=
  text ++ .ofList (List.replicate (width - text.length) ' ')

/-- A text filled up with blanks in front. -/
def padStart (width : Nat) (text : String) : String :=
  .ofList (List.replicate (width - text.length) ' ') ++ text

/-- A line of the table. -/
def row (entry : ElementKind × Tally) : String :=
  let (kind, tally) := entry
  let title := padEnd 14 (kind.text ++ ":")
  let matched := padStart 6 (toString tally.matched)
  let all := padEnd 6 (toString tally.all)
  s!"{title} {matched}/{all} ({Percentage.text tally.matched tally.all}%)\n"

/-- One line for each counted kind. -/
def table (statistics : Statistics) : String :=
  String.join (statistics.map row)

end Statistics

end Correlate
