/-
Module: Correlate.CommandLine.Run
Purpose: A run of the program on files.
Main exports: runFiles, RunSummary, RunError, writeReport
-/
import Correlate.CommandLine.Config
import Correlate.CommandLine.Discovery
import Correlate.Compiled.Model
import Correlate.Facts.Directory
import Correlate.Report.Document
import Correlate.Source.FrontEnd

namespace Correlate.CommandLine

/-- Why a run fails. -/
inductive RunError where
  | unreadableConfig (path : Path)
  | badConfig (path : Path) (cause : ConfigError)
  | missingInput (path : Path)
  | noModels
  | badModel (cause : Compiled.LoadError)
  | noSources
  | badSource (path : Path) (cause : Source.ReadError)
  | badFacts (cause : FactsError)
  /-- Matching asks for a number that is no word. -/
  | overflow
  /-- The directory of the report cannot be made. -/
  | noDirectory (path : Path)
  | unwritable (path : Path)
deriving DecidableEq, Repr, Inhabited

/-- The ending of the names of models of compiled code. -/
def modelEnding : String := ".ir.json"

namespace RunError

def message : RunError → String
  | .unreadableConfig path => s!"failed to read config {path}"
  | .badConfig path _ => s!"in config {path}"
  | .missingInput path => s!"input path {path} does not exist"
  | .noModels => s!"no IR model files ({modelEnding}) found"
  | .badModel _ => "failed to load IR models"
  | .noSources => "no source model files found"
  | .badSource path _ => s!"failed to read source model {path}"
  | .badFacts _ => "failed to read fact relations"
  | .overflow => "attempt to add with overflow"
  | .noDirectory path => s!"failed to create {path}"
  | .unwritable path => s!"failed to write report {path}"

/-- What is behind a failure, as far as it is known. -/
def cause? : RunError → Option String
  | .badConfig _ cause => some cause.message
  | .badModel cause => some cause.message
  | .badSource _ cause => some cause.message
  | .badFacts cause => some cause.message
  | _ => none

/-- What the program ends with: an overflow is no failure that it reports itself. -/
def exitCode : RunError → UInt32
  | .overflow => 101
  | _ => 1

end RunError

/-- What a run produces. -/
structure RunSummary where
  modelCount : Nat
  sourceCount : Nat
  report : Report
  statistics : Statistics
deriving DecidableEq, Repr, Inhabited

variable {m : Type → Type} [Monad m] (disk : Disk m)

/-- Read the configuration. -/
def loadConfig (path : Path) : ExceptT RunError m Config := do
  match ← disk.readText path with
  | none => throw (.unreadableConfig path)
  | some text =>
      match Config.ofText text with
      | .ok config => return config.relativeTo path
      | .error cause => throw (.badConfig path cause)

/-- The input files that some paths stand for. -/
def inputs (accepts : String → Bool) (roots : List Path) : ExceptT RunError m (List InputFile) :=
  (discover disk accepts roots).adapt .missingInput

/-- Add the model of a file. -/
def loadModel (builder : Compiled.Builder) (input : InputFile) :
    ExceptT RunError m Compiled.Builder := do
  match ← disk.readText input.path with
  | none => throw (.badModel (.unreadable input.path))
  | some text =>
      match builder.addText input.path text with
      | .ok builder => return builder
      | .error cause => throw (.badModel cause)

/-- Read a source file. -/
def loadSource (input : InputFile) : ExceptT RunError m Source.File := do
  let fail (cause : Source.ReadError) : ExceptT RunError m Source.File :=
    throw (.badSource input.path cause)
  match Source.FrontEnd.select? Source.FrontEnd.shipped input.path.fileName with
  | none => fail (.unsupported input.path)
  | some frontEnd =>
      match ← disk.readText input.path with
      | none => fail (.unreadable input.path)
      | some text =>
          match frontEnd.read input.display text with
          | .ok file => return file
          | .error cause => fail cause

/-- Read the facts, if there are any. -/
def loadFacts (directory : Option Path) : ExceptT RunError m (Option Facts) :=
  match directory with
  | none => return none
  | some directory => some <$> (Facts.readDirectory disk directory).adapt .badFacts

/-- Read all inputs and match them. -/
def runFiles (arguments : Arguments) : ExceptT RunError m RunSummary := do
  let config ← arguments.config.mapM (loadConfig disk)
  let modelFiles ← inputs disk (fun name => name.endsWith modelEnding) arguments.models
  if modelFiles.isEmpty then throw .noModels
  let builder ← modelFiles.foldlM (loadModel disk) {}
  let build := builder.finish
  let sourceFiles ← inputs disk (Source.FrontEnd.supports Source.FrontEnd.shipped) arguments.sources
  if sourceFiles.isEmpty then throw .noSources
  let files ← sourceFiles.mapM (loadSource disk)
  let facts ← loadFacts disk (arguments.facts <|> config.bind Config.facts)
  let plan : Matching.Plan :=
    { pool := build.pool, options := resolveOptions config arguments, facts }
  let some outcome := Matching.run? plan files | throw .overflow
  return { modelCount := modelFiles.length
           sourceCount := sourceFiles.length
           report := .ofOutcome plan build.diagnostics outcome
           statistics := .collect outcome.files }

/-- Write a report to a file, in a directory that is made if need be. -/
def writeReport (report : Report) (path : Path) : ExceptT RunError m Unit := do
  let directory := path.parent?.getD ""
  if !directory.isEmpty then
    if !(← disk.makeDirectories directory) then throw (.noDirectory directory)
  if !(← disk.writeText path (report.text ++ "\n")) then throw (.unwritable path)

end Correlate.CommandLine
