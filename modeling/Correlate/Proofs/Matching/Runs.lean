/-
Module: Correlate.Proofs.Matching.Runs
Purpose: What holds after all files of a run.
Main exports: Turn, Outcome.Sound, run_sound, run?_eq_or, Turn.explores
-/
import Mathlib.Data.List.Induction
import Correlate.Matching.Run
import Correlate.Proofs.Matching.Types

namespace Correlate.Matching

/-! ### Settings of one run -/

section Setting

variable {plan : Plan} {i j : Nat} {file : Source.File} {source : Source.Handle .method}
  {compiled : Compiled.Handle .method} {own : Source.Ref} {other : Compiled.Ref}

/-- The number of the file does not matter. -/
theorem StatementFits.of_setting
    (fits : StatementFits (plan.setting i) file source compiled own other) :
    StatementFits (plan.setting j) file source compiled own other := by
  cases fits with
  | receiver isReceiver isCompiled => exact .receiver isReceiver isCompiled
  | param isParam isCompiled sized => exact .param isParam isCompiled sized
  | call listed compiledListed named sized => exact .call listed compiledListed named sized
  | allocation listed compiledListed keyed => exact .allocation listed compiledListed keyed
  | arrayCall listed compiledListed several creates =>
      exact .arrayCall listed compiledListed several creates
  | access listed compiledListed plain named alike =>
      exact .access listed compiledListed plain named alike
  | outerThis listed compiledListed qualified reads captured typed =>
      exact .outerThis listed compiledListed qualified reads captured typed
  | cast listed compiledListed => exact .cast listed compiledListed
  | reference listed compiledListed named => exact .reference listed compiledListed named
  | standInCall listed compiledListed stands => exact .standInCall listed compiledListed stands
  | standInAllocation listed compiledListed stands =>
      exact .standInAllocation listed compiledListed stands

theorem Fits.of_setting (fits : Fits (plan.setting i) file own other) :
    Fits (plan.setting j) file own other := by
  cases fits with
  | type known named => exact .type known named
  | field linked listed compiledListed named => exact .field linked listed compiledListed named
  | method linked listed compiledListed noBlock denoted =>
      exact .method linked listed compiledListed noBlock denoted
  | lambda linked listed compiledListed implemented room =>
      exact .lambda linked listed compiledListed implemented room
  | statement linked fits => exact .statement linked fits.of_setting

theorem Fitted.of_setting (fitted : Fitted (plan.setting i) file) : Fitted (plan.setting j) file where
  formed := fitted.formed
  fits element link found := (fitted.fits element link found).of_setting

end Setting

/-! ### Files one after the other -/

/-- The states before and after the file with the given number was matched. -/
structure Turn (plan : Plan) (files : List Source.File) (outcome : Outcome) (i : Nat)
    (start final : State) : Prop where
  start_file : files[i]? = some start.file
  final_file : outcome.files[i]? = some final.file
  sound : start.Sound (plan.setting i) (outcome.files.take i)
  unlinked : ∀ element, start.file.isLinked element = false
  matched : final = start.matchTypes (plan.setting i)
  notices : ∀ notice ∈ final.notices, notice ∈ outcome.ledger.notices
  overflow : final.overflow = true → outcome.ledger.overflow = true

/-- What holds after some files were matched. -/
structure Outcome.Sound (plan : Plan) (files : List Source.File) (outcome : Outcome) : Prop where
  length : outcome.files.length = files.length
  fitted : ∀ i, ∀ file ∈ outcome.files, Fitted (plan.setting i) file
  accounted : Accounted plan.pool outcome.files outcome.ledger.registry
  turns : ∀ i < files.length, ∃ start final, Turn plan files outcome i start final
  asked : outcome.ledger.overflow = true →
    ∃ file ∈ outcome.files, MayExceed plan.pool plan.arities file

variable {plan : Plan} {files : List Source.File} {outcome : Outcome}

/-- The state in which the next file is matched. -/
def Outcome.open (outcome : Outcome) (file : Source.File) : State :=
  { toLedger := outcome.ledger, file }

theorem Outcome.Sound.open_sound {file : Source.File} (poolFormed : plan.pool.WellFormed)
    (sound : outcome.Sound plan files) (formed : file.WellFormed)
    (unlinked : ∀ element, file.isLinked element = false) :
    (outcome.open file).Sound (plan.setting outcome.files.length) outcome.files where
  pool := poolFormed
  index := rfl
  earlier := sound.fitted _
  current :=
    { formed
      fits := fun element _ found =>
        absurd found (Source.File.not_link_of_unlinked (unlinked element)) }
  accounted := sound.accounted.addFile unlinked
  pairs := nofun

/-- Matching the next file. -/
theorem Outcome.Sound.matchFile {file : Source.File} (poolFormed : plan.pool.WellFormed)
    (sound : outcome.Sound plan files) (formed : file.WellFormed)
    (unlinked : ∀ element, file.isLinked element = false) :
    (Matching.matchFile plan outcome file).Sound plan (files ++ [file]) := by
  let start := outcome.open file
  let final := start.matchTypes (plan.setting outcome.files.length)
  have startSound := sound.open_sound poolFormed formed unlinked
  have journey := (State.matchTypes_journey startSound unlinked).1
  obtain ⟨finalSound, grown⟩ := journey.steps.sound_grows startSound
  constructor
  case length => simp [Matching.matchFile, sound.length]
  case fitted =>
    intro i later member
    rcases (List.mem_append.mp member).imp_right List.mem_singleton.mp with before | rfl
    · exact sound.fitted i later before
    · exact finalSound.current.of_setting
  case accounted => exact finalSound.accounted
  case turns =>
    intro i bound
    rw [List.length_append, List.length_singleton] at bound
    rcases Nat.lt_succ_iff_lt_or_eq.mp bound with earlier | rfl
    · obtain ⟨first, last, turn⟩ := sound.turns i earlier
      have known : i < outcome.files.length := sound.length ▸ earlier
      refine ⟨first, last, ?_⟩
      constructor
      case start_file => rw [List.getElem?_append_left earlier]; exact turn.start_file
      case final_file =>
        exact (List.getElem?_append_left known).trans turn.final_file
      case sound =>
        have taken : (Matching.matchFile plan outcome file).files.take i = outcome.files.take i :=
          List.take_append_of_le_length (Nat.le_of_lt known)
        rw [taken]
        exact turn.sound
      case unlinked => exact turn.unlinked
      case matched => exact turn.matched
      case notices => exact fun notice noted => grown.notices notice (turn.notices notice noted)
      case overflow => exact fun raised => grown.overflow (turn.overflow raised)
    · rw [← sound.length]
      refine ⟨start, final, ?_⟩
      constructor
      case start_file =>
        rw [sound.length, List.getElem?_append_right (Nat.le_refl _), Nat.sub_self]
        rfl
      case final_file =>
        exact (List.getElem?_append_right (Nat.le_refl _)).trans (by rw [Nat.sub_self]; rfl)
      case sound =>
        have taken : (Matching.matchFile plan outcome file).files.take outcome.files.length =
            outcome.files := List.take_left
        rw [taken]
        exact startSound
      case unlinked => exact unlinked
      case matched => rfl
      case notices => exact fun notice => id
      case overflow => exact id
  case asked =>
    intro raised
    rcases journey.steps.overflow_new startSound raised with earlier | here
    · obtain ⟨found, member, exceeds⟩ := sound.asked earlier
      exact ⟨found, List.mem_append_left _ member, exceeds⟩
    · exact ⟨final.file, List.mem_append_right _ (List.mem_singleton_self _), here⟩

/-- All files of a run, before the facts are read. -/
theorem foldl_sound (built : plan.pool.IsBuilt) (reachable : ∀ file ∈ files, file.Reachable)
    (unlinked : ∀ file ∈ files, ∀ element, file.isLinked element = false) :
    (files.foldl (Matching.matchFile plan) {}).Sound plan files := by
  induction files using List.reverseRecOn with
  | nil =>
      constructor
      case length => rfl
      case fitted => exact fun _ => nofun
      case accounted => exact .empty plan.pool
      case turns => exact fun i bound => absurd bound (Nat.not_lt_zero i)
      case asked => exact nofun
  | append_singleton before file inductionHypothesis =>
      rw [List.foldl_append]
      have member : file ∈ before ++ [file] := List.mem_append_right _ (List.mem_singleton_self _)
      exact (inductionHypothesis
        (fun earlier isEarlier => reachable earlier (List.mem_append_left _ isEarlier))
        (fun earlier isEarlier => unlinked earlier (List.mem_append_left _ isEarlier))).matchFile
          built.wellFormed (reachable file member).wellFormed (unlinked file member)

/-- A whole run. -/
theorem run_sound (built : plan.pool.IsBuilt) (reachable : ∀ file ∈ files, file.Reachable)
    (unlinked : ∀ file ∈ files, ∀ element, file.isLinked element = false) :
    (run plan files).Sound plan files := by
  have matched := foldl_sound built reachable unlinked
  constructor
  case length => exact matched.length
  case fitted => exact matched.fitted
  case accounted => exact matched.accounted
  case turns =>
    intro i bound
    obtain ⟨start, final, turn⟩ := matched.turns i bound
    exact ⟨start, final, { turn with }⟩
  case asked => exact matched.asked

/-- The program comes through, unless a call of some file asks for a number that is no word. -/
theorem run?_eq_or (built : plan.pool.IsBuilt) (reachable : ∀ file ∈ files, file.Reachable)
    (unlinked : ∀ file ∈ files, ∀ element, file.isLinked element = false) :
    run? plan files = some (run plan files) ∨
      ∃ file ∈ (run plan files).files, MayExceed plan.pool plan.arities file := by
  cases raised : (run plan files).ledger.overflow with
  | false => exact .inl (by rw [run?, raised]; rfl)
  | true => exact .inr ((run_sound built reachable unlinked).asked raised)

/-! ### What the turn of a file comes to -/

namespace Turn

variable {i : Nat} {start final : State}

theorem journey (turn : Turn plan files outcome i start final) :
    Journey (plan.setting i) start anyElement start final := by
  obtain ⟨_, _, sound, unlinked, rfl, _⟩ := turn
  exact (State.matchTypes_journey sound unlinked).1

/-- The turn is a sequence of passes. -/
theorem passes (turn : Turn plan files outcome i start final) :
    Passes (plan.setting i) start final :=
  turn.journey.passes

/-- Every linked method was entered, and every type is settled. -/
theorem explores (turn : Turn plan files outcome i start final) :
    Steps (plan.setting i) anyElement start final ∧
      (∀ source compiled, final.file.linkedMethod? source = some compiled →
        Visited (plan.setting i) start final source compiled) ∧
      ∀ type : Source.Handle .type, type.index < start.file.types.size →
        State.TypeSettled (plan.setting i) (outcome.files.take i) start.file type final := by
  refine ⟨turn.journey.steps, fun source compiled linked => ?_, ?_⟩
  · apply (turn.journey.explores source compiled linked).resolve_left
    intro before
    exact Source.File.not_linkedMethod_of_unlinked (turn.unlinked source.ref) before
  · obtain ⟨_, _, sound, unlinked, rfl, _⟩ := turn
    exact (State.matchTypes_journey sound unlinked).2

/-- Whatever is owed at the end of the turn is taken. -/
theorem taken (turn : Turn plan files outcome i start final) {other : Compiled.Ref}
    (owed : Owed plan.pool final.file other) : final.isConsumed other = true := by
  apply (turn.journey.covers.taken other owed).resolve_left
  intro before
  cases before with
  | @field type _ _ linked _ =>
      exact Source.File.not_linkedType_of_unlinked (turn.unlinked type.ref) linked
  | @site source _ _ linked _ _ =>
      exact Source.File.not_linkedMethod_of_unlinked (turn.unlinked source.ref) linked

theorem extended (turn : Turn plan files outcome i start final) :
    start.file.Extends final.file :=
  (turn.journey.steps.grows turn.sound).extended

/-- The links that the file has at the end. -/
theorem linkAt_eq (turn : Turn plan files outcome i start final) (element : Source.Ref) :
    linkAt outcome.files ⟨i, element⟩ = final.file.link? element := by
  rw [linkAt, turn.final_file]
  rfl

/-- The links that the run has made by the end of the turn stay. -/
theorem linkAt_kept (turn : Turn plan files outcome i start final) {handle : SourceHandle}
    {link : Source.Link}
    (linked : linkAt (outcome.files.take i ++ [final.file]) handle = some link) :
    linkAt outcome.files handle = some link := by
  have number : i = (outcome.files.take i).length := turn.sound.index
  rcases linkAt_append_single.mp linked with before | ⟨last, found⟩
  · rw [← List.take_append_drop i outcome.files, linkAt_append_of_lt]
    · exact before
    · by_contra unknown
      rw [linkAt_of_le (Nat.le_of_not_lt unknown)] at before
      cases before
  · obtain ⟨_, element⟩ := handle
    obtain rfl : _ = i := last.trans number.symm
    rw [turn.linkAt_eq]
    exact found

end Turn

/-- The turn of a file of the outcome. -/
theorem Outcome.Sound.turn_of_final {file : Source.File} {i : Nat} (sound : outcome.Sound plan files)
    (found : outcome.files[i]? = some file) :
    ∃ start final, Turn plan files outcome i start final ∧ final.file = file := by
  have bound := (List.getElem?_eq_some_iff.mp found).1
  obtain ⟨start, final, turn⟩ := sound.turns i (sound.length ▸ bound)
  exact ⟨start, final, turn, Option.some.inj (turn.final_file.symm.trans found)⟩

/-- The turn of a file that was put in. -/
theorem Outcome.Sound.turn_of_start {file : Source.File} {i : Nat} (sound : outcome.Sound plan files)
    (found : files[i]? = some file) :
    ∃ start final, Turn plan files outcome i start final ∧ start.file = file := by
  obtain ⟨start, final, turn⟩ := sound.turns i (List.getElem?_eq_some_iff.mp found).1
  exact ⟨start, final, turn, Option.some.inj (turn.start_file.symm.trans found)⟩

/-- Every file at the end comes from one that was put in. -/
theorem Outcome.Sound.exists_start (sound : outcome.Sound plan files) {file : Source.File}
    (member : file ∈ outcome.files) : ∃ before ∈ files, before.Extends file := by
  obtain ⟨i, found⟩ := List.mem_iff_getElem?.mp member
  obtain ⟨start, final, turn, rfl⟩ := sound.turn_of_final found
  exact ⟨start.file, List.mem_of_getElem? turn.start_file, turn.extended⟩

/-- Every file that was put in is there at the end, with what was added to it. -/
theorem Outcome.Sound.exists_final (sound : outcome.Sound plan files) {before : Source.File}
    (member : before ∈ files) : ∃ file ∈ outcome.files, before.Extends file := by
  obtain ⟨i, found⟩ := List.mem_iff_getElem?.mp member
  obtain ⟨start, final, turn, rfl⟩ := sound.turn_of_start found
  exact ⟨final.file, List.mem_of_getElem? turn.final_file, turn.extended⟩

section Single

variable {file : Source.File} (built : plan.pool.IsBuilt)
  (reachable : ∀ given ∈ [file], given.Reachable)
  (unlinked : ∀ given ∈ [file], ∀ element, given.isLinked element = false)

include built reachable unlinked

/-- A run with one file has one file at the end. -/
theorem headD_getElem?_run :
    (run plan [file]).files[0]? = some ((run plan [file]).files.headD default) := by
  have sound := run_sound built reachable unlinked
  obtain ⟨later, same⟩ := List.length_eq_one_iff.mp sound.length
  rw [same]
  rfl

theorem headD_mem_run : (run plan [file]).files.headD default ∈ (run plan [file]).files :=
  List.mem_of_getElem? (headD_getElem?_run built reachable unlinked)

end Single

/-! ### A small run -/

/-- A method that calls `go`. -/
def samplePlan : Plan :=
  let steps : List Compiled.Step :=
    [.type "a.B", .method ⟨0⟩ { name := "m", params := [], returnType := "void" } {},
      .invocation ⟨0⟩ "a.C" { name := "go", params := [], returnType := "void" } none]
  { pool := (({} : Compiled.Builder).performAll steps).1.finish.pool }

/-- The source of the method, with a call of `stop` that was not compiled. -/
def sampleFile : Source.File :=
  ({ path := "B.java", package := "a" } : Source.File).performAll
    [.type "B" none none, .method ⟨0⟩ "m" none false none, .invocation ⟨1⟩ "go" 0 none none none,
      .invocation ⟨1⟩ "stop" 0 none none none]

theorem samplePlan_isBuilt : samplePlan.pool.IsBuilt := by
  refine ⟨_, Compiled.Builder.Reachable.empty.performAll ?admitted, rfl⟩
  exact ⟨trivial, Nat.zero_lt_one, Nat.zero_lt_one, trivial⟩

theorem sampleFile_reachable : ∀ file ∈ [sampleFile], file.Reachable := by
  refine List.forall_mem_singleton.mpr ?_
  refine (Source.File.Reachable.empty "B.java" "a").performAll ?admitted
  exact ⟨nofun, Nat.zero_lt_one, ⟨Nat.one_lt_two, nofun, nofun⟩, ⟨Nat.one_lt_two, nofun, nofun⟩,
    trivial⟩

theorem sampleFile_unlinked : ∀ file ∈ [sampleFile], ∀ element, file.isLinked element = false :=
  List.forall_mem_singleton.mpr fun _ => rfl

/-- The file after the run. -/
def sampleResult : Source.File :=
  (run samplePlan [sampleFile]).files.headD default

theorem sampleResult_mem : sampleResult ∈ (run samplePlan [sampleFile]).files :=
  headD_mem_run samplePlan_isBuilt sampleFile_reachable sampleFile_unlinked

end Correlate.Matching
