/-
Module: Correlate.Matching.State
Purpose: The state of a run while one file is matched.
Main exports: Options, Setting, Ledger, State, State.record, State.noteOverflow, State.pairGroup
-/
import Correlate.Matching.Alias
import Correlate.Matching.ArityTable
import Correlate.Matching.Finding
import Correlate.Matching.LineOrder

namespace Correlate.Matching

/-- What a run does beyond matching by structure. -/
structure Options where
  /-- Pair allocations line by line where group sizes disagree. -/
  lossy : Bool := false
  /-- Check the order of lines before pairing by position. -/
  verifyOrdering : Bool := true
  /-- Find the declaring method of every matched call. -/
  resolveInvocations : Bool := false
  /-- Report parameter types with the detail of both spellings. -/
  synthesizeTypes : Bool := false
  /-- Further methods of variable arity. -/
  extraVarargs : List (String × List Nat) := []
deriving DecidableEq, Repr, Inhabited

/-- What stays the same while a file is matched. -/
structure Setting where
  pool : Compiled.Pool
  options : Options
  arities : ArityTable
  fileIndex : Nat

/-- What a run has found so far in all its files. -/
structure Ledger where
  registry : Registry := {}
  aliases : AliasLog := #[]
  notices : Array Notice := #[]
  /-- A number was asked for that is no word.  The program stops there, and whatever is found
  afterwards is not reported. -/
  overflow : Bool := false

instance : Inhabited Ledger := ⟨{}⟩

/-- A source method and the compiled method it is matched to. -/
abbrev MethodPair := Source.Handle .method × Compiled.Handle .method

/-- The findings of a run, the file that is being matched, and the methods of the current type whose
bodies were matched, lambdas included. -/
structure State extends Ledger where
  file : Source.File
  pairs : List MethodPair := []

namespace State

/-- The compiled element is taken. -/
def isConsumed (state : State) (element : Compiled.Ref) : Bool :=
  state.registry.isConsumed element

/-- The compiled elements that are not taken. -/
def openOf {kind : Compiled.Kind} (state : State) (elements : List (Compiled.Handle kind)) :
    List (Compiled.Handle kind) :=
  elements.filter fun element => !state.isConsumed element

/-- Note why a match was not made. -/
def notice (line : Option Nat) (finding : Finding) (state : State) : State :=
  { state with notices := state.notices.push { file := state.file.path, line, finding } }

/-- Note why elements at and after a source element were not matched. -/
def noticeAt (element : Source.Ref) (finding : Finding) (state : State) : State :=
  state.notice (state.file.startLine? element) finding

/-- Neither of two elements is matched yet. -/
def accepts (state : State) (source : Source.Ref) (compiled : Compiled.Ref) : Bool :=
  state.registry.accepts state.file source compiled

/-- Match two elements, or note that one of them is matched already. -/
def record (setting : Setting) (source : Source.Ref) (compiled : Compiled.Ref) (state : State) :
    State :=
  match state.registry.record? setting.pool setting.fileIndex source compiled state.file with
  | some (registry, file) => { state with registry, file }
  | none =>
      state.noticeAt source (.alreadyMatched source.kind.element (state.file.label source)
        (setting.pool.elementId compiled))

/-- Note that a source variable stands for a slot. -/
def addAlias (symbol slot : String) (state : State) : State :=
  { state with aliases := state.aliases.push { slot, symbol } }

/-- Note whether a number was asked for that is no word. -/
def noteOverflow (exceeds : Bool) (state : State) : State :=
  { state with overflow := state.overflow || exceeds }

@[simp]
theorem noteOverflow_registry (exceeds : Bool) (state : State) :
    (state.noteOverflow exceeds).registry = state.registry := rfl

/-- Match the elements of two groups of the same size position by position.  Where the order of lines
is checked and the groups contradict each other, nothing is matched. -/
def pairGroup (setting : Setting) (group : String) (pairs : List (Source.Ref × Compiled.Ref))
    (state : State) : State :=
  let inversion :=
    if setting.options.verifyOrdering then
      firstInversion? (pairLines state.file setting.pool pairs)
    else none
  match inversion with
  | some (first, second) =>
      state.notice ((pairs[first]?).bind fun pair => state.file.startLine? pair.1)
        (.disorder group first second)
  | none => pairs.foldl (fun state (source, compiled) => state.record setting source compiled) state

/-- Two groups paired position by position. -/
def zipRefs {sourceKind : Source.Kind} {compiledKind : Compiled.Kind}
    (sources : List (Source.Handle sourceKind)) (compiled : List (Compiled.Handle compiledKind)) :
    List (Source.Ref × Compiled.Ref) :=
  (sources.map Source.Handle.ref).zip (compiled.map Compiled.Handle.ref)

end State

end Correlate.Matching
