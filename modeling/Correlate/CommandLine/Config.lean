/-
Module: Correlate.CommandLine.Config
Purpose: Configuration files.
Main exports: Config, Config.ofText, ConfigError, resolveOptions
-/
import Correlate.CommandLine.Arguments
import Correlate.Grouping
import Correlate.Json.Decode
import Correlate.Json.Reader
import Correlate.Matching.State

namespace Correlate.CommandLine

/-- A configuration.  What it leaves open keeps its default. -/
structure Config where
  lossy : Option Bool := none
  verifyOrdering : Option Bool := none
  resolveInvocations : Option Bool := none
  synthesizeTypes : Option Bool := none
  /-- Further methods of variable arity with the arities of their compiled forms. -/
  varargMethods : List (String × List Nat) := []
  /-- A directory with facts, as seen from the directory of the configuration file. -/
  facts : Option Path := none
deriving DecidableEq, Repr, Inhabited

/-- Why a configuration is refused. -/
inductive ConfigError where
  | malformed
  /-- A method is given without its type. -/
  | unqualified (method : String)
  | noArities (method : String)
deriving DecidableEq, Repr, Inhabited

def ConfigError.message : ConfigError → String
  | .malformed => "failed to parse irfit config"
  | .unqualified method => s!"vararg method '{method}' must be written as Type.name"
  | .noArities method => s!"vararg method '{method}' lists no arities"

namespace Config

open Json

/-- Methods and their arities.  A method that is given again takes its last arities and keeps its
place. -/
def varargMethods? (json : Json) : Option (List (String × List Nat)) := do
  let members ← members? (list? word64?) json
  members.foldlM (fun methods (key, arities) =>
    key.map fun name => assign name arities methods) []

def ofJson? (json : Json) : Option Config := do
  if !json.isSound then none
  let [lossy, verifyOrdering, resolveInvocations, synthesizeTypes, varargMethods, facts] ←
    fields? true
      ["lossy", "verifyOrdering", "resolveInvocations", "synthesizeTypes", "varargMethods",
       "facts"] json | none
  pure { lossy := ← optional? bool? lossy
         verifyOrdering := ← optional? bool? verifyOrdering
         resolveInvocations := ← optional? bool? resolveInvocations
         synthesizeTypes := ← optional? bool? synthesizeTypes
         varargMethods := ← defaulted? [] varargMethods? varargMethods
         facts := ← optional? text? facts }

/-- What is wrong with a method of variable arity. -/
def methodError? (entry : String × List Nat) : Option ConfigError :=
  if !entry.1.contains '.' then some (.unqualified entry.1)
  else if entry.2.isEmpty then some (.noArities entry.1)
  else none

/-- The configuration that a text describes. -/
def ofText (text : String) : Except ConfigError Config :=
  match (Json.parse? text).bind ofJson? with
  | none => throw .malformed
  | some config =>
      match config.varargMethods.findSome? methodError? with
      | some error => throw error
      | none => pure config

/-- The configuration of a file, with paths as seen from where the program runs. -/
def relativeTo (path : Path) (config : Config) : Config :=
  { config with facts := config.facts.map (path.parent?.getD "").join }

/-- The options that a configuration sets. -/
def options (config : Config) : Matching.Options :=
  let default : Matching.Options := {}
  { lossy := config.lossy.getD default.lossy
    verifyOrdering := config.verifyOrdering.getD default.verifyOrdering
    resolveInvocations := config.resolveInvocations.getD default.resolveInvocations
    synthesizeTypes := config.synthesizeTypes.getD default.synthesizeTypes
    extraVarargs := config.varargMethods }

end Config

/-- The options of a run: those of the configuration, and on top of them those of the arguments. -/
def resolveOptions (config : Option Config) (arguments : Arguments) : Matching.Options :=
  let options := (config.getD {}).options
  { options with
    lossy := options.lossy || arguments.lossy
    verifyOrdering := options.verifyOrdering && !arguments.noOrderingCheck
    resolveInvocations := options.resolveInvocations || arguments.resolveInvocations
    synthesizeTypes := options.synthesizeTypes || arguments.synthesizeTypes }

end Correlate.CommandLine
