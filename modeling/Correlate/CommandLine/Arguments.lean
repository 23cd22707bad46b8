/-
Module: Correlate.CommandLine.Arguments
Purpose: The arguments of the program.
Main exports: Arguments, Arguments.parse, ArgumentError
-/
import Correlate.Files.Path

namespace Correlate.CommandLine

/-!
An option takes its value after an equals sign, from the same argument after a short name, or from
the arguments that follow.  Values that follow are only taken into account once the next option comes
or the arguments end: an option without any is refused then, and of two faults the one that is found
first counts.
-/

/-- The arguments of the program. -/
structure Arguments where
  /-- Models of compiled code, or directories with such. -/
  models : List Path := []
  /-- Source files, or directories with such. -/
  sources : List Path := []
  facts : Option Path := none
  config : Option Path := none
  /-- Where the report is written to. -/
  out : Option Path := none
  /-- Print statistics. -/
  stats : Bool := false
  noColor : Bool := false
  lossy : Bool := false
  noOrderingCheck : Bool := false
  resolveInvocations : Bool := false
  synthesizeTypes : Bool := false
deriving DecidableEq, Repr, Inhabited

/-- Why no run follows from the arguments. -/
inductive ArgumentError where
  | helpRequested
  | versionRequested
  /-- An argument that is no option, or an option that does not exist. -/
  | unknown
  /-- An option that must be given is not. -/
  | missing
  /-- An option is given twice that may be given once. -/
  | repeated
  /-- An option has no value, or an empty one. -/
  | noValue
  /-- A value is given to an option that takes none. -/
  | superfluousValue
deriving DecidableEq, Repr, Inhabited

/-- The options that take values. -/
inductive ValueOption where
  | models
  | sources
  | facts
  | config
  | out
deriving DecidableEq, Repr, Inhabited

/-- An option may have more than one value. -/
def ValueOption.isMany : ValueOption → Bool
  | .models | .sources => true
  | _ => false

/-- The options that take no value. -/
inductive Switch where
  | stats
  | noColor
  | lossy
  | noOrderingCheck
  | resolveInvocations
  | synthesizeTypes
deriving DecidableEq, Repr, Inhabited

/-- What the name of an option stands for. -/
inductive Meaning where
  | takesValues (option : ValueOption)
  | switch (switch : Switch)
  | help
  | version
deriving DecidableEq, Repr, Inhabited

/-- The names that follow two dashes. -/
def longNames : List (String × Meaning) :=
  [("ir", .takesValues .models), ("source", .takesValues .sources), ("facts", .takesValues .facts),
   ("config", .takesValues .config), ("out", .takesValues .out), ("stats", .switch .stats),
   ("no-color", .switch .noColor), ("lossy", .switch .lossy),
   ("no-ordering-check", .switch .noOrderingCheck),
   ("resolve-invocations", .switch .resolveInvocations),
   ("synthesize-types", .switch .synthesizeTypes), ("help", .help), ("version", .version)]

/-- The names that follow one dash. -/
def shortNames : List (Char × Meaning) :=
  [('s', .takesValues .sources), ('c', .takesValues .config), ('o', .takesValues .out),
   ('h', .help), ('V', .version)]

namespace Arguments

/-- The values an option has so far. -/
def valuesOf (arguments : Arguments) : ValueOption → List Path
  | .models => arguments.models
  | .sources => arguments.sources
  | .facts => arguments.facts.toList
  | .config => arguments.config.toList
  | .out => arguments.out.toList

/-- Add values to those of an option. -/
def addValues (option : ValueOption) (values : List Path) (arguments : Arguments) : Arguments :=
  match option with
  | .models => { arguments with models := arguments.models ++ values }
  | .sources => { arguments with sources := arguments.sources ++ values }
  | .facts => { arguments with facts := values.head? }
  | .config => { arguments with config := values.head? }
  | .out => { arguments with out := values.head? }

/-- The option is given. -/
def hasSwitch (arguments : Arguments) : Switch → Bool
  | .stats => arguments.stats
  | .noColor => arguments.noColor
  | .lossy => arguments.lossy
  | .noOrderingCheck => arguments.noOrderingCheck
  | .resolveInvocations => arguments.resolveInvocations
  | .synthesizeTypes => arguments.synthesizeTypes

def setSwitch (switch : Switch) (arguments : Arguments) : Arguments :=
  match switch with
  | .stats => { arguments with stats := true }
  | .noColor => { arguments with noColor := true }
  | .lossy => { arguments with lossy := true }
  | .noOrderingCheck => { arguments with noOrderingCheck := true }
  | .resolveInvocations => { arguments with resolveInvocations := true }
  | .synthesizeTypes => { arguments with synthesizeTypes := true }

/-- Give values to an option. -/
def give (option : ValueOption) (values : List Path) (arguments : Arguments) :
    Except ArgumentError Arguments :=
  if values.isEmpty then .error .noValue
  else if !option.isMany && !(arguments.valuesOf option).isEmpty then .error .repeated
  else if values.any String.isEmpty then .error .noValue
  else .ok (arguments.addValues option values)

/-- Turn an option on. -/
def turnOn (switch : Switch) (arguments : Arguments) : Except ArgumentError Arguments :=
  if arguments.hasSwitch switch then .error .repeated else .ok (arguments.setSwitch switch)

end Arguments

/-- The arguments so far, and the option whose values are being collected. -/
structure Reading where
  arguments : Arguments := {}
  pending : Option (ValueOption × List Path) := none
deriving DecidableEq, Repr, Inhabited

namespace Reading

/-- Give the collected values to their option. -/
def settle (reading : Reading) : Except ArgumentError Arguments :=
  match reading.pending with
  | some (option, values) => reading.arguments.give option values
  | none => .ok reading.arguments

/-- An option without its value starts to collect values. -/
def collect (option : ValueOption) (reading : Reading) : Except ArgumentError Reading :=
  reading.settle.map fun arguments => { arguments, pending := some (option, []) }

/-- An option with its value. -/
def attach (option : ValueOption) (value : Path) (reading : Reading) :
    Except ArgumentError Reading := do
  let arguments ← reading.settle
  let arguments ← arguments.give option [value]
  pure { arguments }

/-- An option without a value. -/
def perform (meaning : Meaning) (reading : Reading) : Except ArgumentError Reading :=
  match meaning with
  | .takesValues option => reading.collect option
  | .switch switch => do
      let arguments ← reading.settle
      let arguments ← arguments.turnOn switch
      pure { arguments }
  | .help => reading.settle.bind fun _ => .error .helpRequested
  | .version => reading.settle.bind fun _ => .error .versionRequested

/-- An argument after two dashes. -/
def readLong (text : List Char) (reading : Reading) : Except ArgumentError Reading :=
  let name := text.takeWhile (· ≠ '=')
  match longNames.lookup (.ofList name), text.drop name.length with
  | none, _ => .error .unknown
  | some meaning, [] => reading.perform meaning
  | some (.takesValues option), _ :: value => reading.attach option (.ofList value)
  | some _, _ :: _ => .error .superfluousValue

/-- An argument after one dash: the name of an option and what follows it. -/
def readShort (name : Char) (rest : List Char) (reading : Reading) :
    Except ArgumentError Reading :=
  match shortNames.lookup name, rest with
  | none, _ => .error .unknown
  | some (.takesValues option), '=' :: value => reading.attach option (.ofList value)
  | some (.takesValues option), c :: value => reading.attach option (.ofList (c :: value))
  | some meaning, _ => reading.perform meaning

/-- An argument that is no option: one more value, if values are being collected. -/
def readValue (value : Path) (reading : Reading) : Except ArgumentError Reading :=
  match reading.pending with
  | some (option, values) =>
      if option.isMany || values.isEmpty then
        .ok { reading with pending := some (option, values ++ [value]) }
      else .error .unknown
  | none => .error .unknown

/-- Read one argument. -/
def read (reading : Reading) (argument : String) : Except ArgumentError Reading :=
  match argument.toList with
  | '-' :: '-' :: text => reading.readLong text
  | '-' :: name :: rest => reading.readShort name rest
  | _ => reading.readValue argument

/-- Read arguments in order.  Nothing may follow two dashes on their own. -/
def readAll (reading : Reading) : List String → Except ArgumentError Reading
  | [] => .ok reading
  | ["--"] => .ok reading
  | argument :: rest =>
      if argument = "--" then .error .unknown
      else (reading.read argument).bind fun next => next.readAll rest

end Reading

/-- Read the arguments of the program.  Models and sources must be given. -/
def Arguments.parse (arguments : List String) : Except ArgumentError Arguments := do
  let reading ← ({} : Reading).readAll arguments
  let arguments ← reading.settle
  if arguments.models.isEmpty || arguments.sources.isEmpty then throw .missing
  else pure arguments

end Correlate.CommandLine
