/-
Module: Correlate.Matching.ArityTable
Purpose: Calls of methods of variable arity.
Main exports: ArityTable, ArityTable.build, ArityTable.isPlausible, ArityTable.isPlausible?,
  ArityTable.regroup, ArityTable.regroup?
-/
import Correlate.Compiled.Builder
import Correlate.Matching.Registry
import Correlate.Text.Decimal

namespace Correlate.Matching

/-!
A call of a method of variable arity has as many arguments in the source as the programmer wrote,
but compiled it passes one array in their place.  The table lists for such methods the arities of
their compiled forms.

Numbers of arguments are words, and the word after the last one is no word: where the program asks for
it, it stops.  `isPlausible` and `regroup` say what fits over all natural numbers, `isPlausible?` and
`regroup?` what the program answers, if it does.
-/

/-- The compiled arities of methods of variable arity by type and name, each list ascending. -/
structure ArityTable where
  entries : Std.TreeMap String (List Nat) := {}

namespace ArityTable

instance : Inhabited ArityTable := ⟨{}⟩

/-- The arities of a method. -/
def arities? (table : ArityTable) (name : String) : Option (List Nat) :=
  table.entries[name]?

/-- The table has an entry for the method. -/
def contains (table : ArityTable) (name : String) : Bool :=
  table.entries.contains name

/-- Add arities to those of a method. -/
def insert (name : String) (arities : List Nat) (table : ArityTable) : ArityTable :=
  let known := (table.arities? name).getD []
  { entries := table.entries.insert name
      (arities.foldl (fun known arity => Compiled.insertAscending arity known) known) }

/-- Add several entries. -/
def insertAll (entries : List (String × List Nat)) (table : ArityTable) : ArityTable :=
  entries.foldl (fun table (name, arities) => table.insert name arities) table

/-- The methods of variable arity that every program may call. -/
def platformEntries : List (String × List Nat) :=
  [("java.lang.Class.getConstructor", [1]),
   ("java.lang.Class.getDeclaredConstructor", [1]),
   ("java.lang.Class.getDeclaredMethod", [2]),
   ("java.lang.Class.getMethod", [2]),
   ("java.lang.String.format", [2, 3]),
   ("java.lang.reflect.Constructor.newInstance", [1]),
   ("java.lang.reflect.Method.invoke", [2]),
   ("java.util.Arrays.asList", [1])]

/-- The table of the platform. -/
def platform : ArityTable :=
  ({} : ArityTable).insertAll platformEntries

/-- The table of a run: the platform, the methods that the pool marks, and configured methods. -/
def build (pool : Compiled.Pool) (extra : List (String × List Nat)) : ArityTable :=
  (platform.insertAll pool.varargArities.toList).insertAll extra

/-- The number after a word, if it is a word as well. -/
def nextWord? (n : Nat) : Option Nat :=
  if n + 1 < Text.wordLimit then some (n + 1) else none

/-- Of some arities, the given one is the only one up to a bound. -/
def isOnlyUpTo (arities : List Nat) (bound arity : Nat) : Bool :=
  match arities.filter (· ≤ bound) with
  | [only] => only = arity
  | _ => false

/-- A call with `sourceArity` arguments may be the compiled call with `compiledArity` values: among
the forms of the method whose fixed arguments the source passes, there is exactly one, and it has
that arity.  Methods with several such forms are left alone. -/
def isPlausible (table : ArityTable) (name : String) (compiledArity sourceArity : Nat) : Bool :=
  match table.arities? name with
  | none => false
  | some arities => isOnlyUpTo arities (sourceArity + 1) compiledArity

/-- The same in words.  The number after that of the arguments is asked for where there is an arity to
compare it with, and there is no answer where it is no word. -/
def isPlausible? (table : ArityTable) (name : String) (compiledArity sourceArity : Nat) :
    Option Bool :=
  match table.arities? name with
  | none | some [] => some false
  | some arities => (nextWord? sourceArity).map (isOnlyUpTo arities · compiledArity)

/-- The calls of a compiled method that are open and fit a source call: those of the same name and
arity, and those of the same name that variable arity makes plausible. -/
def regroup (table : ArityTable) (pool : Compiled.Pool) (registry : Registry)
    (method : Compiled.Handle .method) (name : String) (sourceArity : Nat) :
    List (Compiled.Handle .invocation) :=
  (pool.methodAt method).invocations.filter fun handle =>
    let call := pool.invocationAt handle
    !registry.isConsumed handle && call.name == name &&
      (call.arity = sourceArity || table.isPlausible call.namingId call.arity sourceArity)

/-- The same in words, if there is an answer for every call whose arity has to be looked at. -/
def regroup? (table : ArityTable) (pool : Compiled.Pool) (registry : Registry)
    (method : Compiled.Handle .method) (name : String) (sourceArity : Nat) :
    Option (List (Compiled.Handle .invocation)) :=
  (pool.methodAt method).invocations.filterM fun handle =>
    let call := pool.invocationAt handle
    if registry.isConsumed handle || call.name != name then some false
    else if call.arity = sourceArity then some true
    else table.isPlausible? call.namingId call.arity sourceArity

end ArityTable

end Correlate.Matching
