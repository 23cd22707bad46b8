/-
Module: Correlate.Main
Purpose: The program.
Main exports: main
-/
import Correlate.CommandLine.Run
import Correlate.CommandLine.Terminal

namespace Correlate.Main

open CommandLine

/-! ### Files of the machine -/

/-- The result of an action, if it succeeds. -/
def attempt {α : Type} (action : IO α) : IO (Option α) :=
  try some <$> action catch _ => return none

/-- There is a directory at the path. -/
def isDirectory (path : Path) : IO Bool := do
  match ← attempt (IO.FS.realPath path) with
  | some place => place.isDir
  | none => return false

/-- There is something else than a directory at the path. -/
def isFile (path : Path) : IO Bool := do
  match ← attempt (IO.FS.realPath path) with
  | some place => return !(← place.isDir)
  | none => return false

/-- The files below a directory, each after the given names. -/
partial def filesBelow (names : List String) (directory : Path) : IO (List (List String)) := do
  let place ← IO.FS.realPath directory
  let entries ← place.readDir
  let found ← entries.toList.mapM fun entry => do
    let below := names ++ [entry.fileName]
    let path := directory.join entry.fileName
    if ← isDirectory path then return (← attempt (filesBelow below path)).getD []
    else return [below]
  return found.flatten

/-- Access to the files of the machine. -/
def disk : Disk IO where
  isFile := isFile
  isDirectory := isDirectory
  readText path := attempt (IO.FS.readFile path)
  filesBelow path := return (← attempt (filesBelow [] path)).getD []
  makeDirectories path := return (← attempt (IO.FS.createDirAll path)).isSome
  writeText path text := return (← attempt (IO.FS.writeFile path text)).isSome

/-! ### Messages -/

def usage : String :=
  "\n".intercalate
    ["Correlate source elements with the compiled IR elements they produced",
     "",
     "Usage: irfit [OPTIONS] --ir <IR>... --source <SOURCES>...",
     "",
     "Options:",
     "      --ir <IR>...           IR model files (*.ir.json) or directories searched for them",
     "  -s, --source <SOURCES>...  Source model files or directories searched for supported files",
     "      --facts <FACTS>        Directory holding tab-separated fact relations",
     "  -c, --config <CONFIG>      JSON configuration file; command-line flags override it",
     "  -o, --out <OUT>            Write the JSON report here instead of stdout",
     "      --stats                Print per-kind match statistics to stderr",
     "      --no-color             Disable colored diagnostics",
     "      --lossy                Pair allocations by line when group sizes disagree",
     "      --no-ordering-check    Skip the source/IR order check before positional pairing",
     "      --resolve-invocations  Resolve the declaring method of every matched call",
     "      --synthesize-types     Report parameter types combining source and IR spellings",
     "  -h, --help                 Print help",
     "  -V, --version              Print version"]

/-- What is wrong with the arguments. -/
def complaint : ArgumentError → String
  | .helpRequested => usage
  | .versionRequested => "irfit 0.1.0"
  | .unknown => "error: unexpected argument found"
  | .missing => "error: the following required arguments were not provided: --ir, --source"
  | .repeated => "error: an argument cannot be used multiple times"
  | .noValue => "error: a value is required for an argument but none was supplied"
  | .superfluousValue => "error: unexpected value for an argument that takes none"

/-- Say why there is no run.  Questions are answered and are no failure. -/
def refuse (error : ArgumentError) : IO UInt32 := do
  match error with
  | .helpRequested | .versionRequested =>
      IO.println (complaint error)
      return 0
  | _ =>
      IO.eprintln (complaint error)
      return 2

/-- Say why a run failed. -/
def fail (error : RunError) : IO UInt32 := do
  match error.cause? with
  | some cause => IO.eprintln s!"irfit: {error.message}: {cause}"
  | none => IO.eprintln s!"irfit: {error.message}"
  return error.exitCode

/-- Hand over the report. -/
def deliver (arguments : Arguments) (report : Report) : ExceptT RunError IO Unit :=
  match arguments.out with
  | some path => writeReport disk report path
  | none => IO.println report.text

/-- Run and deliver the report. -/
def produce (arguments : Arguments) : ExceptT RunError IO RunSummary := do
  let summary ← runFiles disk arguments
  deliver arguments summary.report
  return summary

/-- Say what a run found. -/
def conclude (arguments : Arguments) (summary : RunSummary) : IO Unit := do
  let tty ← (← IO.getStderr).isTty
  let terminal : Terminal := { color := !arguments.noColor && tty }
  let report := summary.report
  if !report.diagnostics.isEmpty then IO.eprintln (terminal.diagnostics report.diagnostics)
  if arguments.stats then IO.eprintln (terminal.statistics summary.statistics)
  let counts := s!"{summary.modelCount} IR files, {summary.sourceCount} source files"
  IO.eprintln s!"{terminal.summary report} ({counts})"

/-- Run the program on its arguments. -/
def program (arguments : List String) : IO UInt32 := do
  match Arguments.parse arguments with
  | .error error => refuse error
  | .ok arguments =>
      match ← (produce arguments).run with
      | .error error => fail error
      | .ok summary =>
          conclude arguments summary
          return 0

end Correlate.Main

def main (arguments : List String) : IO UInt32 :=
  Correlate.Main.program arguments
