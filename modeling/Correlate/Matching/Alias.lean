/-
Module: Correlate.Matching.Alias
Purpose: Which source variables a slot of compiled code stands for.
Main exports: Alias, AliasLog, AliasLog.slots, AliasLog.symbolsOf?
-/
import Correlate.Grouping

namespace Correlate.Matching

/-- A slot of compiled code and the symbol of a source variable it stands for. -/
structure Alias where
  slot : String
  symbol : String
deriving DecidableEq, Repr, Inhabited

/-- The aliases in the order in which they were found.  They have no effect on matching. -/
abbrev AliasLog := Array Alias

namespace AliasLog

/-- Each slot with its symbols, both in the order of first appearance and without repetitions. -/
def slots (log : AliasLog) : List (String × List String) :=
  (groupBy Alias.slot log.toList).map fun (slot, group) => (slot, distinct (group.map Alias.symbol))

/-- The symbols of a slot, if there are any. -/
def symbolsOf? (log : AliasLog) (slot : String) : Option (List String) :=
  log.slots.lookup slot

end AliasLog

end Correlate.Matching
