/-
Module: Correlate.Matching.Field
Purpose: Matching the fields of a matched type.
Main exports: State.matchFields
-/
import Correlate.Matching.State
import Correlate.Source.Assembly

namespace Correlate.Matching.State

/-- The first open compiled field with the name of a source field. -/
def fieldCounterpart? (setting : Setting) (compiledType : Compiled.Handle .type)
    (field : Source.Handle .field) (state : State) : Option (Compiled.Handle .field) :=
  (setting.pool.typeAt compiledType).fields.find? fun candidate =>
    (setting.pool.fieldAt candidate).name == (state.file.fieldAt field).name &&
      !state.isConsumed candidate

/-- Match a source field. -/
def matchField (setting : Setting) (compiledType : Compiled.Handle .type) (state : State)
    (field : Source.Handle .field) : State :=
  match state.fieldCounterpart? setting compiledType field with
  | some counterpart => state.record setting field counterpart
  | none => state

/-- Let a placeholder stand for a compiled field that is still open. -/
def standInForField (setting : Setting) (type : Source.Handle .type) (state : State)
    (field : Compiled.Handle .field) : State :=
  if state.isConsumed field then state
  else
    let record := setting.pool.fieldAt field
    let (file, placeholder) := state.file.addPlaceholderField type record.name record.type
    { state with file }.record setting placeholder field

/-- Match the fields of a type by name.  The compiled fields that stay open get placeholders. -/
def matchFields (setting : Setting) (type : Source.Handle .type)
    (compiledType : Compiled.Handle .type) (state : State) : State :=
  let matched := (state.file.typeAt type).fields.foldl (matchField setting compiledType) state
  (setting.pool.typeAt compiledType).fields.foldl (standInForField setting type) matched

end Correlate.Matching.State
