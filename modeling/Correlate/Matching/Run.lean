/-
Module: Correlate.Matching.Run
Purpose: Matching all files of a run.
Main exports: Outcome, run, run?
-/
import Correlate.Compiled.Hierarchy
import Correlate.Matching.FactAlias
import Correlate.Matching.Type

namespace Correlate.Matching

/-!
Files are matched one after the other.  What one file has taken is taken for all that follow.

`run` counts arguments in natural numbers and always comes to an end.  The program counts them in words
and stops at the first number it asks for that is no word; `run?` is what it finds, if it gets
through, and that is what `run` finds.
-/

/-- What stays the same in a whole run. -/
structure Plan where
  pool : Compiled.Pool
  options : Options := {}
  facts : Option Facts := none

/-- The methods of variable arity that a run knows. -/
def Plan.arities (plan : Plan) : ArityTable :=
  .build plan.pool plan.options.extraVarargs

/-- What stays the same while the file with the given number is matched. -/
def Plan.setting (plan : Plan) (fileIndex : Nat) : Setting :=
  { pool := plan.pool, options := plan.options, arities := plan.arities, fileIndex }

/-- The files of a run with their links, and what was found in them. -/
structure Outcome where
  files : List Source.File := []
  ledger : Ledger := {}

/-- Match the next file of a run. -/
def matchFile (plan : Plan) (outcome : Outcome) (file : Source.File) : Outcome :=
  let state : State := { toLedger := outcome.ledger, file }
  let matched := state.matchTypes (plan.setting outcome.files.length)
  { files := outcome.files ++ [matched.file], ledger := matched.toLedger }

/-- The aliases that the facts of a run reveal. -/
def revealedAliases (plan : Plan) (files : List Source.File) : List Alias :=
  match plan.facts with
  | some facts => files.flatMap (factAliases plan.pool facts)
  | none => []

/-- Match files. -/
def run (plan : Plan) (files : List Source.File) : Outcome :=
  let outcome := files.foldl (matchFile plan) {}
  let revealed := revealedAliases plan outcome.files
  { outcome with
    ledger := { outcome.ledger with aliases := outcome.ledger.aliases ++ revealed } }

/-- Match files, if every number that is asked for is a word. -/
def run? (plan : Plan) (files : List Source.File) : Option Outcome :=
  let outcome := run plan files
  if outcome.ledger.overflow then none else some outcome

/-- The compiled call that a source call is linked to, with its id. -/
def linkedCall? (file : Source.File) (call : Source.Handle .invocation) :
    Option (String × Compiled.Handle .invocation) :=
  match file.link? call with
  | some ⟨⟨.invocation, index⟩, id⟩ => some (id, ⟨index⟩)
  | _ => none

/-- The ids of the matched calls of a run, each with the id of the method it reaches. -/
def callTargets (pool : Compiled.Pool) (files : List Source.File) : List (String × String) :=
  let calls := files.flatMap fun file => file.invocationHandles.filterMap (linkedCall? file)
  calls.foldl (fun targets (id, call) =>
    assign id (pool.targetId (pool.invocationAt call)) targets) []

/-- The targets of the calls of a run, where the run looks for them. -/
def Outcome.resolvedTargets (plan : Plan) (outcome : Outcome) : List (String × String) :=
  if plan.options.resolveInvocations then callTargets plan.pool outcome.files else []

end Correlate.Matching
