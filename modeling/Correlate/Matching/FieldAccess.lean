/-
Module: Correlate.Matching.FieldAccess
Purpose: Matching the field accesses of a matched method.
Main exports: State.matchFieldAccesses, State.matchOuterThis
-/
import Correlate.Matching.State
import Correlate.Source.Resolver

namespace Correlate.Matching.State

/-- The source accesses of a method by field name.  Reads of an enclosing instance are left out. -/
def sourceAccesses (source : Source.Handle .method) (state : State) :
    Grouping String (Source.Handle .fieldAccess) :=
  groupBy (fun access => (state.file.fieldAccessAt access).name)
    ((state.file.methodAt source).fieldAccesses.filter fun access =>
      (state.file.fieldAccessAt access).outerThis.isNone)

/-- The open compiled accesses of a method by field name. -/
def openAccesses (setting : Setting) (compiled : Compiled.Handle .method) (state : State) :
    Grouping String (Compiled.Handle .fieldAccess) :=
  groupBy (fun access => (setting.pool.fieldAccessAt access).name)
    (state.openOf (setting.pool.methodAt compiled).fieldAccesses)

/-- Match the accesses of one kind to a field, where both sides have equally many. -/
def matchAccessesOfKind (setting : Setting) (name : String)
    (sources : List (Source.Handle .fieldAccess)) (compiled : List (Compiled.Handle .fieldAccess))
    (state : State) (kind : AccessKind) : State :=
  let sources := sources.filter fun access => (state.file.fieldAccessAt access).kind = kind
  let compiled := compiled.filter fun access => (setting.pool.fieldAccessAt access).kind = kind
  match sources with
  | [] => state
  | first :: _ =>
      if sources.length = compiled.length then
        state.pairGroup setting (kind.idLead ++ name) (zipRefs sources compiled)
      else state.noticeAt first (.accessCount name kind sources.length compiled.length)

/-- The first source access that is paired with a compiled access of the other kind. -/
def firstKindMismatch? (setting : Setting) (sources : List (Source.Handle .fieldAccess))
    (compiled : List (Compiled.Handle .fieldAccess)) (state : State) :
    Option (Source.Handle .fieldAccess) :=
  ((sources.zip compiled).find? fun (access, candidate) =>
    (state.file.fieldAccessAt access).kind ≠ (setting.pool.fieldAccessAt candidate).kind).map
      Prod.fst

/-- Match the accesses to a field.  Equally many on both sides are paired if no read pairs with a
write; otherwise reads and writes are matched on their own. -/
def matchAccessGroup (setting : Setting) (candidates : Grouping String (Compiled.Handle .fieldAccess))
    (state : State) (group : String × List (Source.Handle .fieldAccess)) : State :=
  let (name, sources) := group
  let compiled := candidates.members name
  if compiled.length = sources.length then
    match state.firstKindMismatch? setting sources compiled with
    | some access => state.noticeAt access (.accessKinds name)
    | none => state.pairGroup setting s!"accesses of {name}" (zipRefs sources compiled)
  else AccessKind.all.foldl (matchAccessesOfKind setting name sources compiled) state

/-- Match the field accesses of a method. -/
def matchFieldAccesses (setting : Setting) (source : Source.Handle .method)
    (compiled : Compiled.Handle .method) (state : State) : State :=
  (state.sourceAccesses source).foldl
    (matchAccessGroup setting (state.openAccesses setting compiled)) state

/-- The open reads of an enclosing instance in a method, each with the type that qualifies it. -/
def openOuterThis (source : Source.Handle .method) (state : State) :
    List (Source.Handle .fieldAccess × String) :=
  (state.file.methodAt source).fieldAccesses.filterMap fun access : Source.Handle .fieldAccess =>
    if state.file.isLinked access then none
    else (state.file.fieldAccessAt access).outerThis.map fun qualifier => (access, qualifier)

/-- The first open compiled read of a field that holds an enclosing instance of one of the types. -/
def outerThisCounterpart? (setting : Setting) (compiled : Compiled.Handle .method)
    (types : List String) (state : State) : Option (Compiled.Handle .fieldAccess) :=
  (setting.pool.methodAt compiled).fieldAccesses.find? fun candidate : Compiled.Handle .fieldAccess =>
    let record := setting.pool.fieldAccessAt candidate
    !state.isConsumed candidate && record.kind.isRead &&
      ReservedName.isOuterThisField record.name && record.type.any types.contains

/-- Match a read of an enclosing instance. -/
def matchOuterThisAccess (setting : Setting) (compiled : Compiled.Handle .method) (state : State)
    (access : Source.Handle .fieldAccess × String) : State :=
  match state.outerThisCounterpart? setting compiled (state.file.resolve (some access.2)) with
  | some counterpart => state.record setting access.1 counterpart
  | none => state

/-- Match the reads of enclosing instances in a method. -/
def matchOuterThis (setting : Setting) (state : State) (pair : MethodPair) : State :=
  (state.openOuterThis pair.1).foldl (matchOuterThisAccess setting pair.2) state

end Correlate.Matching.State
