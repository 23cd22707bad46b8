/-
Module: Correlate.Proofs.Source.Prolonging
Purpose: Adding to a file leaves alone what the file shows already.
Main exports: File.Prolongs, File.BodyShown.prolong, File.MethodShown.prolong
-/
import Correlate.Proofs.Source.Founding
import Correlate.Proofs.Source.Outline
import Correlate.Proofs.Source.Ownership

namespace Correlate.Source

/-!
While a file is built from a document, elements are added to the method that is being read, and to
methods that are added meanwhile.  `File.Prolongs` says which methods may have changed.  Whatever is
shown of the others stays shown.
-/

/-! ### What is left alone -/

/-- A method without the content of its body. -/
def Method.head (method : Method) : Method :=
  { method with
    locals := [], invocations := [], allocations := [], fieldAccesses := [], casts := []
    methodRefs := [], lambdas := [], stringConstants := [] }

/-- One file comes of another by additions that change none of the methods but the touched ones, and
nothing of a type that names depend on. -/
structure File.Prolongs (touched : Nat → Prop) (file later : File) : Prop where
  path : later.path = file.path
  package : later.package = file.package
  imports : later.imports = file.imports
  links : later.links = file.links
  parts : ∀ part : Part, Grown (part.table file) (part.table later)
  fields : Grown file.fields later.fields
  typeUsages : Grown file.typeUsages later.typeUsages
  methods_size : file.methods.size ≤ later.methods.size
  methods : ∀ i, i < file.methods.size → ¬ touched i → later.methods[i]? = file.methods[i]?
  types_size : file.types.size ≤ later.types.size
  binaryName : ∀ type : Handle .type, type.index < file.types.size →
    (later.typeAt type).binaryName = (file.typeAt type).binaryName

namespace File

variable {touched others : Nat → Prop} {file middle later : File}

namespace Prolongs

theorem refl (touched : Nat → Prop) (file : File) : file.Prolongs touched file :=
  ⟨rfl, rfl, rfl, rfl, fun _ => .refl _, .refl _, .refl _, Nat.le_refl _, fun _ _ _ => rfl,
    Nat.le_refl _, fun _ _ => rfl⟩

/-- What the second step touches was added by the first, or may be touched anyway. -/
theorem trans (first : file.Prolongs touched middle) (second : middle.Prolongs others later)
    (within : ∀ i, i < file.methods.size → others i → touched i) :
    file.Prolongs touched later where
  path := second.path.trans first.path
  package := second.package.trans first.package
  imports := second.imports.trans first.imports
  links := second.links.trans first.links
  parts part := (first.parts part).trans (second.parts part)
  fields := first.fields.trans second.fields
  typeUsages := first.typeUsages.trans second.typeUsages
  methods_size := Nat.le_trans first.methods_size second.methods_size
  methods i known untouched := by
    rw [second.methods i (Nat.lt_of_lt_of_le known first.methods_size)
      fun hit => untouched (within i known hit)]
    exact first.methods i known untouched
  types_size := Nat.le_trans first.types_size second.types_size
  binaryName type known := by
    rw [second.binaryName type (Nat.lt_of_lt_of_le known first.types_size)]
    exact first.binaryName type known

theorem methodAt (prolongs : file.Prolongs touched later) {method : Handle .method}
    (known : method.index < file.methods.size) (untouched : ¬ touched method.index) :
    later.methodAt method = file.methodAt method := by
  rw [File.methodAt, prolongs.methods method.index known untouched, File.methodAt]

theorem variableAt (prolongs : file.Prolongs touched later) {held : Handle .variable}
    (known : held.index < file.vars.size) : later.variableAt held = file.variableAt held := by
  have found : file.vars[held.index]? = some (file.vars[held.index]) :=
    Array.getElem?_eq_getElem known
  have kept : later.vars[held.index]? = some _ := prolongs.parts .localVariable _ _ found
  rw [File.variableAt, File.variableAt, kept, found]

end Prolongs

theorem methodAt_changeMethod_self {method : Handle .method}
    (known : method.index < file.methods.size) (change : Method → Method) :
    (file.changeMethod method change).methodAt method = change (file.methodAt method) := by
  simp [File.methodAt, changeMethod, Array.getElem_modify, known]

theorem prolongs_changeMethod (file : File) (method : Handle .method)
    (change : Method → Method) :
    file.Prolongs (· = method.index) (file.changeMethod method change) where
  path := rfl
  package := rfl
  imports := rfl
  links := rfl
  parts part := by cases part <;> exact .refl _
  fields := .refl _
  typeUsages := .refl _
  methods_size := Nat.le_of_eq (Array.size_modify).symm
  methods i _ untouched := by
    rw [changeMethod, Array.getElem?_modify, if_neg (Ne.symm untouched)]
  types_size := Nat.le_refl _
  binaryName _ _ := rfl

/-! #### Names -/

/-- A method keeps its kind, its name, and whatever else does not depend on its body. -/
def HeadKept (file later : File) (method : Handle .method) : Prop :=
  (later.methodAt method).head = (file.methodAt method).head

namespace HeadKept

variable {method : Handle .method}

theorem read {α : Type} (kept : file.HeadKept later method) (read : Method → α)
    (blind : ∀ record : Method, read record.head = read record) :
    read (later.methodAt method) = read (file.methodAt method) := by
  rw [← blind, kept, blind]

end HeadKept

namespace Prolongs

/-- A method whose name and type are as before is called as before. -/
theorem symbolOf_of_named (prolongs : file.Prolongs touched later) (formed : file.WellFormed)
    {method : Handle .method} (known : method.index < file.methods.size)
    (declaring_kept : (later.methodAt method).declaring = (file.methodAt method).declaring)
    (name_kept : (later.methodAt method).name = (file.methodAt method).name) (name : String) :
    later.symbolOf method name = file.symbolOf method name := by
  have binaryName := prolongs.binaryName (file.methodAt method).declaring
    (formed.declaring_known known)
  simp only [File.symbolOf, qualifiedName, declaring_kept, name_kept, binaryName]

theorem symbolOf (prolongs : file.Prolongs touched later) (formed : file.WellFormed)
    {method : Handle .method} (known : method.index < file.methods.size)
    (kept : file.HeadKept later method) (name : String) :
    later.symbolOf method name = file.symbolOf method name :=
  prolongs.symbolOf_of_named formed known (kept.read Method.declaring fun _ => rfl)
    (kept.read Method.name fun _ => rfl) name

end Prolongs

/-! #### Variables -/

/-- A method keeps its receiver, its parameters, and the local variables that a frame counts. -/
structure FrameKept (file later : File) (frame : Frame) : Prop where
  receiver : (later.methodAt frame.method).receiver = (file.methodAt frame.method).receiver
  params : (later.methodAt frame.method).params = (file.methodAt frame.method).params
  locals : (later.methodAt frame.method).locals.take frame.declared =
    (file.methodAt frame.method).locals.take frame.declared

/-- All frames of a scope are kept. -/
def ScopeKept (file later : File) (scope : List Frame) : Prop :=
  ∀ frame ∈ scope, file.FrameKept later frame

theorem FrameKept.of_same {frame : Frame}
    (same : later.methodAt frame.method = file.methodAt frame.method) :
    file.FrameKept later frame :=
  ⟨by rw [same], by rw [same], by rw [same]⟩

namespace WellFormed

theorem param_known (formed : file.WellFormed) {method : Handle .method} {held : Handle .variable}
    (listed : held ∈ (file.methodAt method).params) : held.index < file.vars.size :=
  (formed.owner_of_listed .parameter (List.mem_map_of_mem listed)).1

theorem local_known (formed : file.WellFormed) {method : Handle .method} {held : Handle .variable}
    (listed : held ∈ (file.methodAt method).locals) : held.index < file.vars.size :=
  (formed.owner_of_listed .localVariable (List.mem_map_of_mem listed)).1

end WellFormed

theorem find?_congr {α : Type} {list : List α} {test other : α → Bool}
    (same : ∀ entry ∈ list, test entry = other entry) : list.find? test = list.find? other := by
  induction list with
  | nil => rfl
  | cons entry rest inductionHypothesis =>
      rw [List.find?_cons, List.find?_cons, same entry List.mem_cons_self,
        inductionHypothesis fun later member => same later (List.mem_cons_of_mem _ member)]

namespace Prolongs

theorem declaredVariable? (prolongs : file.Prolongs touched later) (formed : file.WellFormed)
    {frame : Frame} (kept : file.FrameKept later frame) (name : String) :
    later.declaredVariable? name frame = file.declaredVariable? name frame := by
  rw [File.declaredVariable?, File.declaredVariable?, kept.receiver, kept.params, kept.locals]
  refine if_congr Iff.rfl rfl (find?_congr fun held member => ?_)
  have known : held.index < file.vars.size := by
    rcases List.mem_append.mp member with isLocal | isParam
    · exact formed.local_known (List.mem_of_mem_take (List.mem_reverse.mp isLocal))
    · exact formed.param_known isParam
  rw [prolongs.variableAt known]

theorem scopedVariable? (prolongs : file.Prolongs touched later) (formed : file.WellFormed)
    {scope : List Frame} (kept : file.ScopeKept later scope) :
    later.scopedVariable? scope = file.scopedVariable? scope := by
  funext name
  rw [File.scopedVariable?, File.scopedVariable?]
  induction scope with
  | nil => rfl
  | cons frame rest inductionHypothesis =>
      rw [List.findSome?_cons, List.findSome?_cons,
        prolongs.declaredVariable? formed (kept frame List.mem_cons_self),
        inductionHypothesis fun other member => kept other (List.mem_cons_of_mem _ member)]

end Prolongs

end File

/-! #### Bodies -/

/-- What an element comes to depends on the variables in scope and on what the method is called. -/
theorem Part.entry?_congr {file later : File} {around : List Frame} {method : Handle .method}
    {numbered : Nat × BodyElement}
    (scope_kept : later.scopedVariable? (⟨method, numbered.1⟩ :: around) =
      file.scopedVariable? (⟨method, numbered.1⟩ :: around))
    (symbol_kept : ∀ name, later.symbolOf method name = file.symbolOf method name) (part : Part) :
    part.entry? later around method numbered = part.entry? file around method numbered := by
  obtain ⟨declared, element⟩ := numbered
  cases part <;> cases element <;> simp only [Part.entry?, scope_kept, symbol_kept]

namespace File

variable {touched : Nat → Prop} {file later : File} {method : Handle .method}

namespace Prolongs

/-- The elements that a method listed are what they were. -/
theorem entry (prolongs : file.Prolongs touched later) (formed : file.WellFormed) (part : Part)
    {i : Nat} (listed : i ∈ part.list (file.methodAt method)) :
    (part.table later)[i]? = (part.table file)[i]? := by
  have unlisted : part.list (default : Method) = [] := by cases part <;> rfl
  obtain ⟨entry, found, -⟩ := ((formed.parts part).mem_getD_iff unlisted).mp listed
  rw [prolongs.parts part _ _ found, found]

/-- A method that lists more than it did. -/
theorem entries_append (prolongs : file.Prolongs touched later) (formed : file.WellFormed)
    (part : Part) {added : List Nat}
    (appended : part.list (later.methodAt method) = part.list (file.methodAt method) ++ added) :
    part.entries later method =
      part.entries file method ++ added.map fun i => (part.table later)[i]? := by
  rw [Part.entries, Part.entries, appended, List.map_append]
  exact congrArg (· ++ _) (List.map_congr_left fun i => prolongs.entry formed part)

theorem entries_eq (prolongs : file.Prolongs touched later) (formed : file.WellFormed)
    (part : Part)
    (kept : part.list (later.methodAt method) = part.list (file.methodAt method)) :
    part.entries later method = part.entries file method := by
  rw [prolongs.entries_append formed part (kept.trans (List.append_nil _).symm), List.map_nil,
    List.append_nil]

end Prolongs

theorem ParamsShown.prolong {params : List ParamNode} (shown : file.ParamsShown method params)
    (formed : file.WellFormed) (prolongs : file.Prolongs touched later)
    (known : method.index < file.methods.size) (kept : file.HeadKept later method) :
    later.ParamsShown method params := by
  have listed : Part.list (later.methodAt method) .parameter =
      Part.list (file.methodAt method) .parameter :=
    congrArg (List.map Handle.index) (kept.read Method.params fun _ => rfl)
  rw [ParamsShown, prolongs.entries_eq formed .parameter listed, shown]
  simp only [prolongs.symbolOf formed known kept]

theorem LambdaShown.prolong {lambda : Handle .method} {node : LambdaNode}
    (shown : file.LambdaShown method lambda node) (formed : file.WellFormed)
    (prolongs : file.Prolongs touched later) (known : lambda.index < file.methods.size)
    (declaring_kept : (later.methodAt method).declaring = (file.methodAt method).declaring)
    (lambda_kept : file.HeadKept later lambda) : later.LambdaShown method lambda node where
  kind := (lambda_kept.read Method.kind fun _ => rfl).trans shown.kind
  parent := (lambda_kept.read Method.parent fun _ => rfl).trans shown.parent
  declaring := by
    rw [lambda_kept.read Method.declaring fun _ => rfl, declaring_kept]
    exact shown.declaring
  isStatic := (lambda_kept.read Method.isStatic fun _ => rfl).trans shown.isStatic
  position := (lambda_kept.read Method.position fun _ => rfl).trans shown.position
  params := shown.params.prolong formed prolongs known lambda_kept

/-- What a method keeps while its body stays shown. -/
structure BodyKept (file later : File) (around : List Frame) (method : Handle .method) : Prop where
  known : method.index < file.methods.size
  declaring : (later.methodAt method).declaring = (file.methodAt method).declaring
  name : (later.methodAt method).name = (file.methodAt method).name
  scope : ∀ declared, file.ScopeKept later (⟨method, declared⟩ :: around)
  lists : ∀ part : Part, part.list (later.methodAt method) = part.list (file.methodAt method)
  lambdas : (later.methodAt method).lambdas = (file.methodAt method).lambdas

theorem BodyKept.of_same {around : List Frame} (known : method.index < file.methods.size)
    (scope : file.ScopeKept later around)
    (same : later.methodAt method = file.methodAt method) : file.BodyKept later around method where
  known := known
  declaring := by rw [same]
  name := by rw [same]
  scope _ := List.forall_mem_cons.mpr ⟨.of_same same, scope⟩
  lists _ := by rw [same]
  lambdas := by rw [same]

/-- A body stays shown if the method keeps what it lists, and its lambdas and their bodies stay
shown. -/
theorem BodyKept.shown {around : List Frame} {body : List BodyElement}
    (kept : file.BodyKept later around method) (formed : file.WellFormed)
    (prolongs : file.Prolongs touched later)
    (elements : ∀ part : Part, part.inBody = true → part.entries file method =
      ((BodyElement.numbered 0 body).filterMap (part.entry? file around method)).map some)
    (lambdas_length : (file.methodAt method).lambdas.length =
      ((BodyElement.numbered 0 body).filterMap LambdaNode.of?).length)
    (lambdas : ∀ (n : Nat) lambda node, (file.methodAt method).lambdas[n]? = some lambda →
      ((BodyElement.numbered 0 body).filterMap LambdaNode.of?)[n]? = some node →
      file.LambdaShown method lambda node)
    (heads : ∀ lambda ∈ (file.methodAt method).lambdas, file.HeadKept later lambda)
    (bodies : ∀ (n : Nat) lambda node, (file.methodAt method).lambdas[n]? = some lambda →
      ((BodyElement.numbered 0 body).filterMap LambdaNode.of?)[n]? = some node →
      later.BodyShown (⟨method, node.declared⟩ :: around) lambda node.body) :
    later.BodyShown around method body := by
  have symbols := prolongs.symbolOf_of_named formed kept.known kept.declaring kept.name
  refine .shown (fun part isBody => ?_) (by rw [kept.lambdas]; exact lambdas_length) ?_ ?_
  · rw [prolongs.entries_eq formed part (kept.lists part), elements part isBody]
    refine congrArg (List.map some) (List.filterMap_congr fun place _ => ?_)
    exact (Part.entry?_congr (prolongs.scopedVariable? formed (kept.scope place.1)) symbols
      part).symm
  · intro n lambda node place nodePlace
    rw [kept.lambdas] at place
    have listed := List.mem_of_getElem? place
    exact (lambdas n lambda node place nodePlace).prolong formed prolongs
      (formed.mem_lambdas.mp listed).1 kept.declaring (heads lambda listed)
  · intro n lambda node place nodePlace
    rw [kept.lambdas] at place
    exact bodies n lambda node place nodePlace

/-- A lambda of a method none of whose lambdas is touched is left alone with all that is in it. -/
theorem WellFormed.untouched_of_listed (formed : file.WellFormed)
    (untouched : ∀ inner, file.Within method inner → inner ≠ method → ¬ touched inner.index)
    {lambda : Handle .method} (listed : lambda ∈ (file.methodAt method).lambdas) :
    lambda.index < file.methods.size ∧
      ∀ inner, file.Within lambda inner → ¬ touched inner.index := by
  obtain ⟨known, parent⟩ := formed.mem_lambdas.mp listed
  refine ⟨known, fun inner within => untouched inner (.head parent within) ?_⟩
  rintro rfl
  exact absurd (formed.index_le_of_within within) (Nat.not_le.mpr (formed.parent_lt parent))

/-- A body stays shown if neither its method nor any lambda in it is touched. -/
theorem BodyShown.prolong {around : List Frame} {body : List BodyElement}
    (shown : file.BodyShown around method body) (formed : file.WellFormed)
    (prolongs : file.Prolongs touched later) (known : method.index < file.methods.size)
    (scope : file.ScopeKept later around)
    (untouched : ∀ inner, file.Within method inner → ¬ touched inner.index) :
    later.BodyShown around method body := by
  induction shown with
  | @shown around method body elements lambdas_length lambdas bodies inductionHypothesis =>
      have kept := BodyKept.of_same known scope (prolongs.methodAt known (untouched method .refl))
      have inside {lambda : Handle .method} (listed : lambda ∈ (file.methodAt method).lambdas) :=
        formed.untouched_of_listed (fun inner within _ => untouched inner within) listed
      refine kept.shown formed prolongs elements lambdas_length lambdas (fun lambda listed => ?_) ?_
      · obtain ⟨lambdaKnown, lambdaUntouched⟩ := inside listed
        rw [HeadKept, prolongs.methodAt lambdaKnown (lambdaUntouched lambda .refl)]
      · intro n lambda node place nodePlace
        obtain ⟨lambdaKnown, lambdaUntouched⟩ := inside (List.mem_of_getElem? place)
        exact inductionHypothesis n lambda node place nodePlace lambdaKnown
          (kept.scope node.declared) lambdaUntouched

/-- A body stays shown while its method changes in what the body does not depend on. -/
theorem BodyShown.rehead {around : List Frame} {body : List BodyElement}
    (shown : file.BodyShown around method body) (formed : file.WellFormed)
    (prolongs : file.Prolongs touched later) (kept : file.BodyKept later around method)
    (untouched : ∀ inner, file.Within method inner → inner ≠ method → ¬ touched inner.index) :
    later.BodyShown around method body := by
  cases shown with
  | shown elements lambdas_length lambdas bodies =>
      refine kept.shown formed prolongs elements lambdas_length lambdas (fun lambda listed => ?_) ?_
      · obtain ⟨lambdaKnown, lambdaUntouched⟩ := formed.untouched_of_listed untouched listed
        rw [HeadKept, prolongs.methodAt lambdaKnown (lambdaUntouched lambda .refl)]
      · intro n lambda node place nodePlace
        obtain ⟨lambdaKnown, lambdaUntouched⟩ :=
          formed.untouched_of_listed untouched (List.mem_of_getElem? place)
        exact (bodies n lambda node place nodePlace).prolong formed prolongs lambdaKnown
          (kept.scope node.declared) lambdaUntouched

theorem MethodShown.prolong {type : Handle .type} {outline : Outline}
    (shown : file.MethodShown type method outline) (formed : file.WellFormed)
    (prolongs : file.Prolongs touched later) (known : method.index < file.methods.size)
    (untouched : ∀ inner, file.Within method inner → ¬ touched inner.index) :
    later.MethodShown type method outline := by
  have same := prolongs.methodAt known (untouched method .refl)
  constructor
  case params =>
    exact shown.params.prolong formed prolongs known (by rw [HeadKept, same])
  case body => exact shown.body.prolong formed prolongs known nofun untouched
  all_goals rw [same]
  case kind => exact shown.kind
  case declaring => exact shown.declaring
  case parent => exact shown.parent
  case name => exact shown.name
  case returnType => exact shown.returnType
  case isStatic => exact shown.isStatic
  case implicit => exact shown.implicit
  case position => exact shown.position

end File

end Correlate.Source
