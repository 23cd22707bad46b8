/-
Module: Correlate.Proofs.Source.Reading
Purpose: A body that is read is shown by the method it is read into.
Main exports: Part.append, File.scopeAround, File.BodyRead, File.BodyShown.extend,
  File.LambdaEntered, File.lowerBody_shown
-/
import Correlate.Proofs.Source.Prolonging
import Correlate.Source.Lowering

namespace Correlate.Source

/-!
Reading a body is a loop over its elements.  Its invariant is that the method shows the elements read
so far: an element is listed after those of its kind, and a lambda has shown its own body by the time
it is left.  Names are looked up while the methods around have exactly the local variables declared
before the lambda, which is why the search finds what is in scope.
-/

variable {file middle later : File} {method : Handle .method}

/-- An attempt that succeeds after another one. -/
theorem bind_eq_ok_iff {ε α β : Type} {first : Except ε α} {next : α → Except ε β} {answer : β} :
    first >>= next = .ok answer ↔ ∃ found, first = .ok found ∧ next found = .ok answer := by
  cases first <;> simp [bind, Except.bind]

/-! ### Adding an element -/

namespace Part

/-- A file with one more element of a part. -/
def store (file : File) : (part : Part) → part.Entry → File
  | .receiver, held => { file with vars := file.vars.push held }
  | .parameter, held => { file with vars := file.vars.push held }
  | .localVariable, held => { file with vars := file.vars.push held }
  | .invocation, call => { file with invocations := file.invocations.push call }
  | .allocation, created => { file with allocations := file.allocations.push created }
  | .fieldAccess, access => { file with fieldAccesses := file.fieldAccesses.push access }
  | .cast, conversion => { file with casts := file.casts.push conversion }
  | .methodRef, reference => { file with methodRefs := file.methodRefs.push reference }
  | .stringConstant, constant =>
      { file with stringConstants := file.stringConstants.push constant }

/-- A method that lists one more element of a part. -/
def note (method : Method) (i : Nat) : Part → Method
  | .receiver => { method with receiver := some ⟨i⟩ }
  | .parameter => { method with params := method.params ++ [⟨i⟩] }
  | .localVariable => { method with locals := method.locals ++ [⟨i⟩] }
  | .invocation => { method with invocations := method.invocations ++ [⟨i⟩] }
  | .allocation => { method with allocations := method.allocations ++ [⟨i⟩] }
  | .fieldAccess => { method with fieldAccesses := method.fieldAccesses ++ [⟨i⟩] }
  | .cast => { method with casts := method.casts ++ [⟨i⟩] }
  | .methodRef => { method with methodRefs := method.methodRefs ++ [⟨i⟩] }
  | .stringConstant => { method with stringConstants := method.stringConstants ++ [⟨i⟩] }

/-- Add an element to a method and list it there. -/
def append (part : Part) (method : Handle .method) (entry : part.Entry) (file : File) : File :=
  (part.store file entry).changeMethod method fun record => part.note record (part.table file).size

section Laws

variable (part : Part) {other : Part} (record : Method) (i : Nat) (method : Handle .method)
  (entry : part.Entry) (file : File)

theorem list_note_self (body : part.inBody = true) :
    part.list (part.note record i) = part.list record ++ [i] := by
  cases part <;> first | exact absurd body Bool.false_ne_true | simp [list, note]

theorem list_note_other (differ : other ≠ part) :
    other.list (part.note record i) = other.list record := by
  cases part <;> cases other <;> first | rfl | exact absurd rfl differ

theorem head_note (body : part.inBody = true) : (part.note record i).head = record.head := by
  cases part <;> first | rfl | exact absurd body Bool.false_ne_true

theorem lambdas_note : (part.note record i).lambdas = record.lambdas := by
  cases part <;> rfl

theorem append_methods : (part.append method entry file).methods =
    file.methods.modify method.index fun record => part.note record (part.table file).size := by
  cases part <;> rfl

theorem append_types : (part.append method entry file).types = file.types := by
  cases part <;> rfl

theorem table_append_self :
    part.table (part.append method entry file) = (part.table file).push entry := by
  cases part <;> rfl

theorem grown_append (other : Part) :
    Grown (other.table file) (other.table (part.append method entry file)) := by
  cases part <;> cases other <;> first | exact .refl _ | exact .push _ _

theorem prolongs_append :
    file.Prolongs (· = method.index) (part.append method entry file) where
  path := by cases part <;> rfl
  package := by cases part <;> rfl
  imports := by cases part <;> rfl
  links := by cases part <;> rfl
  parts := part.grown_append method entry file
  fields := by cases part <;> exact .refl _
  typeUsages := by cases part <;> exact .refl _
  methods_size := Nat.le_of_eq (by rw [append_methods, Array.size_modify])
  methods i _ untouched := by
    rw [append_methods, Array.getElem?_modify, if_neg (Ne.symm untouched)]
  types_size := Nat.le_of_eq (by rw [append_types])
  binaryName type _ := by rw [File.typeAt, append_types, File.typeAt]

end Laws

end Part

namespace File

theorem methodAt_append (part : Part) (entry : part.Entry)
    (known : method.index < file.methods.size) :
    (part.append method entry file).methodAt method =
      part.note (file.methodAt method) (part.table file).size := by
  simp [File.methodAt, Part.append_methods, Array.getElem_modify, known]

end File

/-! ### Local variables so far -/

namespace BodyElement

/-- How many local variables a body declares. -/
def localCount (body : List BodyElement) : Nat :=
  body.countP (·.isLocal)

theorem localCount_cons (element : BodyElement) (rest : List BodyElement) :
    localCount (element :: rest) = (if element.isLocal then 1 else 0) + localCount rest := by
  rw [localCount, List.countP_cons, Nat.add_comm]
  rfl

theorem numbered_append (declared : Nat) (body others : List BodyElement) :
    numbered declared (body ++ others) =
      numbered declared body ++ numbered (declared + localCount body) others := by
  induction body generalizing declared with
  | nil => rfl
  | cons element rest inductionHypothesis =>
      rw [List.cons_append, numbered, numbered, inductionHypothesis, localCount_cons,
        List.cons_append]
      split <;> simp [Nat.add_assoc]

/-- An element after a body counts all local variables of the body. -/
theorem filterMap_numbered_concat {α : Type} (choose : Nat × BodyElement → Option α)
    (body : List BodyElement) (element : BodyElement) :
    (numbered 0 (body ++ [element])).filterMap choose =
      (numbered 0 body).filterMap choose ++ (choose (localCount body, element)).toList := by
  rw [numbered_append, Nat.zero_add, numbered, numbered, List.filterMap_append,
    List.filterMap_cons]
  cases choose (localCount body, element) <;> rfl

/-- No element counts more local variables than the body declares. -/
theorem le_of_mem_numbered {declared : Nat} {body : List BodyElement} {place : Nat × BodyElement}
    (member : place ∈ numbered declared body) : place.1 ≤ declared + localCount body := by
  induction body generalizing declared with
  | nil => cases member
  | cons element rest inductionHypothesis =>
      rw [localCount_cons]
      rcases List.mem_cons.mp member with rfl | later
      · exact Nat.le_add_right _ _
      · have bound := inductionHypothesis later
        cases isLocal : element.isLocal <;> simp only [isLocal] at bound ⊢ <;>
          simp only [if_true, if_false, Bool.false_eq_true] at bound ⊢ <;> omega

theorem declared_le_of_lambda {declared : Nat} {body : List BodyElement} {node : LambdaNode}
    (listed : node ∈ (numbered declared body).filterMap LambdaNode.of?) :
    node.declared ≤ declared + localCount body := by
  obtain ⟨⟨count, element⟩, member, isLambda⟩ := List.mem_filterMap.mp listed
  cases element <;> cases isLambda
  exact le_of_mem_numbered member

theorem length_locals (file : File) (around : List Frame) (method : Handle .method)
    (declared : Nat) (body : List BodyElement) :
    ((numbered declared body).filterMap (Part.localVariable.entry? file around method)).length =
      localCount body := by
  induction body generalizing declared with
  | nil => rfl
  | cons element rest inductionHypothesis =>
      rw [numbered, localCount_cons, List.filterMap_cons]
      cases element <;> simp [Part.entry?, isLocal, inductionHypothesis, Nat.add_comm]

end BodyElement

namespace File

/-! ### The methods around -/

/-- The methods around a method, innermost first, each with all local variables that it has. -/
def scopeAround (file : File) (method : Handle .method) : List Frame :=
  (file.enclosingMethods method).tail.map fun outer =>
    ⟨outer, (file.methodAt outer).locals.length⟩

/-- The search for a variable finds what is in scope after the last element of a body. -/
theorem findVariable?_eq (file : File) (method : Handle .method) :
    file.findVariable? method = file.scopedVariable?
      (⟨method, (file.methodAt method).locals.length⟩ :: file.scopeAround method) := by
  funext name
  have own (outer : Handle .method) : file.ownVariable? name outer =
      file.declaredVariable? name ⟨outer, (file.methodAt outer).locals.length⟩ := by
    rw [ownVariable?, declaredVariable?, List.take_length]
  have whole : ⟨method, (file.methodAt method).locals.length⟩ :: file.scopeAround method =
      (file.enclosingMethods method).map fun outer =>
        ⟨outer, (file.methodAt outer).locals.length⟩ := by
    rw [scopeAround, enclosingMethods, methodChain, List.tail_cons, List.map_cons]
  rw [findVariable?, scopedVariable?, whole, List.findSome?_map]
  exact congrArg (List.findSome? · _) (funext own)

theorem scopeAround_of_outermost (alone : (file.methodAt method).parent = none) :
    file.scopeAround method = [] := by
  rw [scopeAround, WellFormed.enclosingMethods_of_outermost alone]
  rfl

theorem WellFormed.scopeAround_of_parent (formed : file.WellFormed) {outer : Handle .method}
    (inside : (file.methodAt method).parent = some outer) :
    file.scopeAround method =
      ⟨outer, (file.methodAt outer).locals.length⟩ :: file.scopeAround outer := by
  rw [scopeAround, formed.enclosingMethods_of_parent inside, List.tail_cons, scopeAround,
    enclosingMethods, methodChain, List.map_cons, List.tail_cons]

/-- The scope around a method is the same while no earlier method changes. -/
theorem WellFormed.scopeAround_eq (formed : file.WellFormed) (laterFormed : later.WellFormed)
    (parent_kept : (later.methodAt method).parent = (file.methodAt method).parent)
    (before : ∀ outer : Handle .method, outer.index < method.index →
      later.methodAt outer = file.methodAt outer) :
    later.scopeAround method = file.scopeAround method := by
  generalize place : method.index = i
  induction i using Nat.strongRecOn generalizing method with
  | _ i inductionHypothesis =>
      subst place
      cases inside : (file.methodAt method).parent with
      | none =>
          rw [scopeAround_of_outermost inside, scopeAround_of_outermost (parent_kept.trans inside)]
      | some outer =>
          have earlier := formed.parent_lt inside
          rw [formed.scopeAround_of_parent inside,
            laterFormed.scopeAround_of_parent (parent_kept.trans inside), before outer earlier]
          refine congrArg _ (inductionHypothesis outer.index earlier ?_ ?_ rfl)
          · rw [before outer earlier]
          · exact fun further bound => before further (Nat.lt_trans bound earlier)

theorem WellFormed.known_of_scopeAround (formed : file.WellFormed)
    {frame : Frame} (member : frame ∈ file.scopeAround method) :
    frame.method.index < method.index := by
  generalize place : method.index = i
  induction i using Nat.strongRecOn generalizing method with
  | _ i inductionHypothesis =>
      subst place
      cases inside : (file.methodAt method).parent with
      | none =>
          rw [scopeAround_of_outermost inside] at member
          cases member
      | some outer =>
          have earlier := formed.parent_lt inside
          rw [formed.scopeAround_of_parent inside] at member
          rcases List.mem_cons.mp member with rfl | further
          · exact earlier
          · exact Nat.lt_trans (inductionHypothesis outer.index earlier further rfl) earlier

/-! ### What reading leaves alone -/

/-- What reading elements of the body of a method makes of a file. -/
structure BodyRead (file later : File) (method : Handle .method) : Prop where
  reachable : later.Reachable
  prolongs : file.Prolongs (· = method.index) later
  types : later.types = file.types
  head : file.HeadKept later method
  locals : ∃ added, (later.methodAt method).locals = (file.methodAt method).locals ++ added

namespace BodyRead

theorem refl (reachable : file.Reachable) (method : Handle .method) : file.BodyRead file method :=
  ⟨reachable, .refl _ file, rfl, rfl, [], (List.append_nil _).symm⟩

theorem trans (first : file.BodyRead middle method) (second : middle.BodyRead later method) :
    file.BodyRead later method where
  reachable := second.reachable
  prolongs := first.prolongs.trans second.prolongs fun _ _ => id
  types := second.types.trans first.types
  head := Eq.trans second.head first.head
  locals := by
    obtain ⟨added, appended⟩ := first.locals
    obtain ⟨more, extended⟩ := second.locals
    exact ⟨added ++ more, by rw [extended, appended, List.append_assoc]⟩

theorem known (read : file.BodyRead later method) (known : method.index < file.methods.size) :
    method.index < later.methods.size :=
  Nat.lt_of_lt_of_le known read.prolongs.methods_size

theorem before (read : file.BodyRead later method) (known : method.index < file.methods.size)
    {outer : Handle .method} (earlier : outer.index < method.index) :
    later.methodAt outer = file.methodAt outer :=
  read.prolongs.methodAt (Nat.lt_trans earlier known) (Nat.ne_of_lt earlier)

theorem scopeAround (read : file.BodyRead later method) (reachable : file.Reachable)
    (known : method.index < file.methods.size) :
    later.scopeAround method = file.scopeAround method :=
  reachable.wellFormed.scopeAround_eq read.reachable.wellFormed
    (read.head.read Method.parent fun _ => rfl) fun _ earlier => read.before known earlier

/-- The variables in scope at an earlier element of the body are what they were. -/
theorem scopeKept (read : file.BodyRead later method) (reachable : file.Reachable)
    (known : method.index < file.methods.size) {declared : Nat}
    (counted : declared ≤ (file.methodAt method).locals.length) :
    file.ScopeKept later (⟨method, declared⟩ :: file.scopeAround method) := by
  refine List.forall_mem_cons.mpr ⟨⟨?_, ?_, ?_⟩, fun frame member => ?_⟩
  · exact read.head.read Method.receiver fun _ => rfl
  · exact read.head.read Method.params fun _ => rfl
  · obtain ⟨added, appended⟩ := read.locals
    rw [appended, List.take_append_of_le_length counted]
  · have earlier := reachable.wellFormed.known_of_scopeAround member
    exact .of_same (read.before known earlier)

end BodyRead

/-! ### One element more -/

theorem BodyShown.length_locals {around : List Frame} {body : List BodyElement}
    (shown : file.BodyShown around method body) :
    (file.methodAt method).locals.length = BodyElement.localCount body := by
  cases shown with
  | shown elements _ _ _ =>
      have lengths := congrArg List.length (elements .localVariable rfl)
      rw [List.length_map, BodyElement.length_locals] at lengths
      simpa [Part.entries, Part.list] using lengths

/-- Entries at the same place of two lists that were equally long before both got longer. -/
theorem getElem?_append_pair {α β : Type} {list added : List α} {other more : List β}
    (lengths : list.length = other.length) {n : Nat} {entry : α} {held : β}
    (place : (list ++ added)[n]? = some entry) (otherPlace : (other ++ more)[n]? = some held) :
    (list[n]? = some entry ∧ other[n]? = some held) ∨ (entry ∈ added ∧ held ∈ more) := by
  rw [List.getElem?_append] at place otherPlace
  rw [← lengths] at otherPlace
  split at place
  · next before =>
    rw [if_pos before] at otherPlace
    exact .inl ⟨place, otherPlace⟩
  · next after =>
    rw [if_neg after] at otherPlace
    exact .inr ⟨List.mem_of_getElem? place, List.mem_of_getElem? otherPlace⟩

/-- A method that shows a body shows one element more once it lists what the element comes to. -/
theorem BodyShown.extend {body : List BodyElement} {element : BodyElement}
    (shown : file.BodyShown (file.scopeAround method) method body) (reachable : file.Reachable)
    (known : method.index < file.methods.size) (read : file.BodyRead later method)
    (elements : ∀ part : Part, part.inBody = true → ∃ added,
      part.list (later.methodAt method) = part.list (file.methodAt method) ++ added ∧
      (added.map fun i => (part.table later)[i]?) =
        (part.entry? file (file.scopeAround method) method
          (BodyElement.localCount body, element)).toList.map some)
    (lambdas : ∃ added, (later.methodAt method).lambdas = (file.methodAt method).lambdas ++ added ∧
      added.length = (LambdaNode.of? (BodyElement.localCount body, element)).toList.length ∧
      ∀ lambda ∈ added, ∀ node,
        LambdaNode.of? (BodyElement.localCount body, element) = some node →
        later.LambdaShown method lambda node ∧
          later.BodyShown (⟨method, node.declared⟩ :: file.scopeAround method) lambda node.body) :
    later.BodyShown (file.scopeAround method) method (body ++ [element]) := by
  have formed := reachable.wellFormed
  have counted := shown.length_locals
  have scope {declared : Nat} (bound : declared ≤ BodyElement.localCount body) :=
    read.scopeKept reachable known (counted ▸ bound)
  obtain ⟨added, appended, added_length, added_shown⟩ := lambdas
  cases shown with
  | shown old old_length old_lambdas old_bodies =>
      have kept (part : Part) {place : Nat × BodyElement}
          (bound : place.1 ≤ BodyElement.localCount body) :=
        Part.entry?_congr (read.prolongs.scopedVariable? formed (scope bound))
          (read.prolongs.symbolOf formed known read.head) part
      have whole {n : Nat} {lambda : Handle .method} {node : LambdaNode}
          (place : (later.methodAt method).lambdas[n]? = some lambda)
          (nodePlace : ((BodyElement.numbered 0 (body ++ [element])).filterMap LambdaNode.of?)[n]? =
            some node) :
          later.LambdaShown method lambda node ∧
            later.BodyShown (⟨method, node.declared⟩ :: file.scopeAround method) lambda
              node.body := by
        rw [appended] at place
        rw [BodyElement.filterMap_numbered_concat] at nodePlace
        rcases getElem?_append_pair old_length place nodePlace with
          ⟨oldPlace, oldNode⟩ | ⟨isAdded, isLast⟩
        case inr => exact added_shown lambda isAdded node (Option.mem_toList.mp isLast)
        -- The lambdas before the element come after the method, which alone has changed.
        obtain ⟨lambdaKnown, inside⟩ := formed.mem_lambdas.mp (List.mem_of_getElem? oldPlace)
        have deeper := formed.parent_lt inside
        have same := read.prolongs.methodAt lambdaKnown (Nat.ne_of_gt deeper)
        have bound := BodyElement.declared_le_of_lambda (List.mem_of_getElem? oldNode)
        rw [Nat.zero_add] at bound
        constructor
        · exact (old_lambdas n lambda node oldPlace oldNode).prolong formed read.prolongs
            lambdaKnown (read.head.read Method.declaring fun _ => rfl) (by rw [HeadKept, same])
        · refine (old_bodies n lambda node oldPlace oldNode).prolong formed read.prolongs
            lambdaKnown (scope bound) fun inner within => ?_
          exact Nat.ne_of_gt (Nat.lt_of_lt_of_le deeper (formed.index_le_of_within within))
      refine .shown (fun part isBody => ?_) ?_ (fun n lambda node place nodePlace => ?_)
        fun n lambda node place nodePlace => (whole place nodePlace).2
      · obtain ⟨places, listed, tabled⟩ := elements part isBody
        rw [read.prolongs.entries_append formed part listed, tabled, old part isBody,
          BodyElement.filterMap_numbered_concat, List.map_append, kept part (Nat.le_refl _)]
        refine congrArg (List.map some · ++ _) (List.filterMap_congr fun place member => ?_)
        have bound := BodyElement.le_of_mem_numbered member
        exact (kept part (by omega)).symm
      · rw [appended, BodyElement.filterMap_numbered_concat, List.length_append,
          List.length_append, old_length, added_length]
      · exact (whole place nodePlace).1

/-! ### Elements other than lambdas -/

end File

namespace Part

variable {part other : Part} {around : List Frame} {place : Nat × BodyElement} {entry : part.Entry}

theorem inBody_of_entry (drawn : part.entry? file around method place = some entry) :
    part.inBody = true := by
  obtain ⟨declared, element⟩ := place
  cases part with
  | receiver | parameter => cases element <;> cases drawn
  | _ => rfl

/-- An element comes to something in one part only. -/
theorem entry?_eq_none (drawn : part.entry? file around method place = some entry)
    (differ : other ≠ part) : other.entry? file around method place = none := by
  obtain ⟨declared, element⟩ := place
  cases part <;> cases element <;> first
    | cases drawn; done
    | (cases other <;> first | rfl | exact absurd rfl differ)

theorem not_lambda_of_entry (drawn : part.entry? file around method place = some entry) :
    LambdaNode.of? place = none := by
  obtain ⟨declared, element⟩ := place
  cases part <;> cases element <;> first | rfl | cases drawn

end Part

namespace File

theorem BodyRead.append {part : Part} (isBody : part.inBody = true) {entry : part.Entry}
    (known : method.index < file.methods.size)
    (reachable : (part.append method entry file).Reachable) :
    file.BodyRead (part.append method entry file) method where
  reachable := reachable
  prolongs := part.prolongs_append method entry file
  types := part.append_types method entry file
  head := by rw [HeadKept, methodAt_append part entry known, part.head_note _ _ isBody]
  locals := by
    rw [methodAt_append part entry known]
    cases part with
    | localVariable => exact ⟨_, rfl⟩
    | _ => exact ⟨[], (List.append_nil _).symm⟩

/-- A step that adds what an element comes to reads the element. -/
theorem BodyShown.append {body : List BodyElement} {element : BodyElement}
    (shown : file.BodyShown (file.scopeAround method) method body) (reachable : file.Reachable)
    (known : method.index < file.methods.size) {step : Step} (stepKnown : step.Known file)
    (part : Part) {entry : part.Entry}
    (performed : (file.perform step).1 = part.append method entry file)
    (drawn : part.entry? file (file.scopeAround method) method
      (BodyElement.localCount body, element) = some entry) :
    file.BodyRead (file.perform step).1 method ∧
      (file.perform step).1.BodyShown (file.scopeAround method) method (body ++ [element]) := by
  have later := reachable.perform stepKnown
  have isBody := Part.inBody_of_entry drawn
  have alone {other : Part} (differ : other ≠ part) := Part.entry?_eq_none drawn differ
  have plain := Part.not_lambda_of_entry drawn
  rw [performed] at later ⊢
  have read := BodyRead.append isBody known later
  refine ⟨read, shown.extend reachable known read (fun other _ => ?_) ?_⟩
  · rw [methodAt_append part entry known]
    by_cases same : other = part
    · subst same
      refine ⟨_, other.list_note_self _ _ isBody, ?_⟩
      rw [drawn, Part.table_append_self]
      simp
    · refine ⟨[], ?_, by rw [alone same]; rfl⟩
      rw [List.append_nil, Part.list_note_other _ _ _ same]
  · refine ⟨[], ?_, by rw [plain]; rfl, nofun⟩
    rw [methodAt_append part entry known, Part.lambdas_note, List.append_nil]

/-- A variable that is found is in the file. -/
theorem WellFormed.known_of_findVariable (formed : file.WellFormed) {name : String}
    {held : Handle .variable} (found : file.findVariable? method name = some held) :
    held.index < file.vars.size := by
  obtain ⟨outer, -, own⟩ := List.exists_of_findSome?_eq_some found
  rw [ownVariable?] at own
  split at own
  · have listed : held.index ∈ Part.list (file.methodAt outer) .receiver := by
      simp [Part.list, own]
    exact (formed.owner_of_listed .receiver listed).1
  · rcases List.mem_append.mp (List.mem_of_find?_eq_some own) with isLocal | isParam
    · exact formed.local_known (List.mem_reverse.mp isLocal)
    · exact formed.param_known isParam

theorem WellFormed.known_of_variableNamed (formed : file.WellFormed) {name : Option String} :
    ∀ held, file.variableNamed? method name = some held → held.index < file.vars.size := by
  intro held found
  obtain ⟨text, -, named⟩ := Option.bind_eq_some_iff.mp found
  exact formed.known_of_findVariable named

/-- What a name denotes is what is in scope at the end of the elements read so far. -/
theorem BodyShown.variableNamed? {body : List BodyElement}
    (shown : file.BodyShown (file.scopeAround method) method body) (name : Option String) :
    file.variableNamed? method name = name.bind (file.scopedVariable?
      (⟨method, BodyElement.localCount body⟩ :: file.scopeAround method)) := by
  rw [File.variableNamed?, findVariable?_eq, shown.length_locals]

/-- Every element but a lambda is read by one step. -/
theorem lowerElement_shown_of_plain {budget : Nat} {body : List BodyElement}
    {element : BodyElement} (plain : ∀ declared, LambdaNode.of? (declared, element) = none)
    (reachable : file.Reachable) (known : method.index < file.methods.size)
    (shown : file.BodyShown (file.scopeAround method) method body)
    (lowered : file.lowerElement budget method element = .ok later) :
    file.BodyRead later method ∧
      later.BodyShown (file.scopeAround method) method (body ++ [element]) := by
  have formed := reachable.wellFormed
  -- In every case the step and the part are told by the kind of the element.
  have read (step : Step) (stepKnown : step.Known file) (part : Part) {entry : part.Entry} :=
    @BodyShown.append file method body element shown reachable known step stepKnown part entry
  cases element with
  | call name args base assignTo position =>
      obtain rfl := Except.ok.inj lowered
      refine read (.invocation method name args position _ _)
        ⟨known, formed.known_of_variableNamed, formed.known_of_variableNamed⟩ .invocation rfl ?_
      rw [shown.variableNamed?, shown.variableNamed?]
      rfl
  | new type dims assignTo position =>
      obtain rfl := Except.ok.inj lowered
      refine read (.allocation method type dims position _)
        ⟨known, formed.known_of_variableNamed⟩ .allocation rfl ?_
      rw [shown.variableNamed?]
      rfl
  | field name access position =>
      obtain rfl := Except.ok.inj lowered
      exact read (.fieldAccess method name access position) known .fieldAccess rfl rfl
  | outerThis qualifier position =>
      obtain rfl := Except.ok.inj lowered
      exact read (.outerThis method qualifier position) known .fieldAccess rfl rfl
  | cast type position =>
      obtain rfl := Except.ok.inj lowered
      exact read (.cast method type position) known .cast rfl rfl
  | methodRef name targetType position =>
      obtain rfl := Except.ok.inj lowered
      exact read (.methodRef method name targetType position) known .methodRef rfl rfl
  | lambda params inner position => cases plain 0
  | string value position =>
      obtain rfl := Except.ok.inj lowered
      exact read (.stringConstant method value position) known .stringConstant rfl rfl
  | localVariable name type position =>
      obtain rfl := Except.ok.inj lowered
      exact read (.localVariable method name type position) known .localVariable rfl rfl

/-! ### Parameters -/

/-- What reading the parameters of a method makes of a file. -/
structure ParamsRead (file later : File) (method : Handle .method) : Prop where
  reachable : later.Reachable
  prolongs : file.Prolongs (· = method.index) later
  types : later.types = file.types
  record : ∃ params, later.methodAt method = { file.methodAt method with params }

namespace ParamsRead

theorem refl (reachable : file.Reachable) (method : Handle .method) :
    file.ParamsRead file method :=
  ⟨reachable, .refl _ file, rfl, _, rfl⟩

theorem trans (first : file.ParamsRead middle method) (second : middle.ParamsRead later method) :
    file.ParamsRead later method where
  reachable := second.reachable
  prolongs := first.prolongs.trans second.prolongs fun _ _ => id
  types := second.types.trans first.types
  record := by
    obtain ⟨_, record⟩ := first.record
    obtain ⟨params, later_record⟩ := second.record
    exact ⟨params, by rw [later_record, record]⟩

theorem read {α : Type} (read : file.ParamsRead later method) (observe : Method → α)
    (blind : ∀ record params, observe { record with params } = observe record) :
    observe (later.methodAt method) = observe (file.methodAt method) := by
  obtain ⟨params, record⟩ := read.record
  rw [record, blind]

end ParamsRead

theorem ParamsShown.addParam {params : List ParamNode} (shown : file.ParamsShown method params)
    (reachable : file.Reachable) (known : method.index < file.methods.size) (param : ParamNode) :
    let later := (file.addParam method param.name param.type param.position).1
    file.ParamsRead later method ∧ later.ParamsShown method (params ++ [param]) := by
  intro later
  let entry : Variable :=
    { position := param.position, method, name := param.name, type := param.type
      kind := .parameter (file.methodAt method).params.length
      symbol := file.symbolOf method param.name }
  have appended : later = Part.parameter.append method entry file := rfl
  have record := methodAt_append .parameter entry known
  rw [← appended] at record
  have read : file.ParamsRead later method :=
    { reachable := @Reachable.perform file (.param method _ _ _) reachable known
      prolongs := Part.parameter.prolongs_append method entry file
      types := rfl
      record := ⟨_, record⟩ }
  have symbol := read.prolongs.symbolOf_of_named reachable.wellFormed known
    (read.read Method.declaring fun _ _ => rfl) (read.read Method.name fun _ _ => rfl)
  have counted : (file.methodAt method).params.length = params.length := by
    simpa [ParamsShown, Part.entries, Part.list] using congrArg List.length shown
  refine ⟨read, ?_⟩
  have listed : Part.list (later.methodAt method) .parameter =
      Part.list (file.methodAt method) .parameter ++ [file.vars.size] := by
    rw [record]
    exact List.map_append
  have stored : (Part.parameter.table later)[file.vars.size]? = some entry :=
    Array.getElem?_push_size
  rw [ParamsShown, read.prolongs.entries_append reachable.wellFormed .parameter listed, shown,
    List.mapIdx_append]
  simp only [symbol, List.map_cons, List.map_nil, List.mapIdx_cons, List.mapIdx_nil, stored,
    Nat.zero_add, entry, counted]

theorem ParamsShown.lowerParams {params : List ParamNode} (shown : file.ParamsShown method params)
    (reachable : file.Reachable) (known : method.index < file.methods.size)
    (others : List ParamNode) :
    file.ParamsRead (file.lowerParams method others) method ∧
      (file.lowerParams method others).ParamsShown method (params ++ others) := by
  induction others generalizing file params with
  | nil => exact ⟨.refl reachable method, by rw [List.append_nil]; exact shown⟩
  | cons param rest inductionHypothesis =>
      obtain ⟨read, readShown⟩ := shown.addParam reachable known param
      obtain ⟨others, othersShown⟩ := inductionHypothesis readShown read.reachable
        (Nat.lt_of_lt_of_le known read.prolongs.methods_size)
      rw [List.append_assoc] at othersShown
      exact ⟨read.trans others, othersShown⟩

/-! ### Lambdas -/

/-- A method without elements shows an empty body. -/
theorem BodyShown.nil {around : List Frame}
    (bare : ∀ part : Part, part.inBody = true → part.list (file.methodAt method) = [])
    (no_lambdas : (file.methodAt method).lambdas = []) : file.BodyShown around method [] := by
  refine .shown (fun part isBody => ?_) (by rw [no_lambdas]; rfl) nofun nofun
  rw [Part.entries, bare part isBody]
  rfl

/-- The method that a lambda starts as. -/
def newLambda (file : File) (outer : Handle .method) (position : Option Position) : Method :=
  { position, kind := .lambda, declaring := (file.methodAt outer).declaring, parent := some outer
    name := s!"lambda${file.lambdaCount}", returnType := none, isStatic := true, implicit := false }

theorem addLambda_methods (file : File) (outer : Handle .method) (position : Option Position) :
    (file.addLambda outer position).1.methods =
      (file.methods.push (file.newLambda outer position)).modify outer.index fun record =>
        { record with lambdas := record.lambdas ++ [⟨file.methods.size⟩] } := rfl

theorem prolongs_addLambda (file : File) (outer : Handle .method) (position : Option Position) :
    file.Prolongs (· = outer.index) (file.addLambda outer position).1 where
  path := rfl
  package := rfl
  imports := rfl
  links := rfl
  parts part := by cases part <;> exact .refl _
  fields := .refl _
  typeUsages := .refl _
  methods_size := by simp [addLambda_methods]
  methods i known untouched := by
    rw [addLambda_methods, Array.getElem?_modify, if_neg (Ne.symm untouched), Array.getElem?_push,
      if_neg (Nat.ne_of_lt known)]
  types_size := Nat.le_refl _
  binaryName _ _ := rfl

theorem methodAt_addLambda_outer (known : method.index < file.methods.size)
    (position : Option Position) : (file.addLambda method position).1.methodAt method =
      { file.methodAt method with
        lambdas := (file.methodAt method).lambdas ++ [⟨file.methods.size⟩] } := by
  rw [File.methodAt, addLambda_methods, Array.getElem?_modify, if_pos rfl, Array.getElem?_push,
    if_neg (Nat.ne_of_lt known), File.methodAt, Array.getElem?_eq_getElem known]
  rfl

theorem methodAt_addLambda_self (known : method.index < file.methods.size)
    (position : Option Position) :
    (file.addLambda method position).1.methodAt ⟨file.methods.size⟩ =
      file.newLambda method position := by
  rw [File.methodAt, addLambda_methods, Array.getElem?_modify, if_neg (Nat.ne_of_lt known),
    Array.getElem?_push, if_pos rfl]
  rfl

/-- What it makes of a file to list a new lambda in a method and to read the parameters of the
lambda. -/
structure LambdaEntered (file middle : File) (method : Handle .method) (params : List ParamNode)
    (position : Option Position) : Prop where
  reachable : middle.Reachable
  prolongs : file.Prolongs (· = method.index) middle
  types : middle.types = file.types
  known : file.methods.size < middle.methods.size
  outer : middle.methodAt method = { file.methodAt method with
    lambdas := (file.methodAt method).lambdas ++ [⟨file.methods.size⟩] }
  record : ∃ params, middle.methodAt ⟨file.methods.size⟩ =
    { file.newLambda method position with params }
  shown : middle.ParamsShown ⟨file.methods.size⟩ params

theorem lambdaEntered_lowerParams (reachable : file.Reachable)
    (known : method.index < file.methods.size) (params : List ParamNode)
    (position : Option Position) :
    file.LambdaEntered ((file.addLambda method position).1.lowerParams ⟨file.methods.size⟩ params)
      method params position := by
  let lambda : Handle .method := ⟨file.methods.size⟩
  have addedReachable : (file.addLambda method position).1.Reachable :=
    @Reachable.perform file (.lambda method position) reachable known
  have addedKnown : lambda.index < (file.addLambda method position).1.methods.size := by
    simp [lambda, addLambda_methods]
  have self := methodAt_addLambda_self known position
  have bare : (file.addLambda method position).1.ParamsShown lambda [] := by
    rw [ParamsShown, Part.entries, self]
    rfl
  obtain ⟨read, shown⟩ := bare.lowerParams addedReachable addedKnown params
  have outerKnown := Nat.lt_trans known addedKnown
  exact
    { reachable := read.reachable
      prolongs := (file.prolongs_addLambda method position).trans read.prolongs
        fun i old new => absurd new (Nat.ne_of_lt old)
      types := read.types
      known := Nat.lt_of_lt_of_le addedKnown read.prolongs.methods_size
      outer := (read.prolongs.methodAt outerKnown (Nat.ne_of_lt known)).trans
        (methodAt_addLambda_outer known position)
      record := by rw [← self]; exact read.record
      shown }

namespace LambdaEntered

variable {params : List ParamNode} {position : Option Position}

theorem read {α : Type} (entered : file.LambdaEntered middle method params position)
    (observe : Method → α)
    (blind : ∀ record params, observe { record with params } = observe record) :
    observe (middle.methodAt ⟨file.methods.size⟩) = observe (file.newLambda method position) := by
  obtain ⟨params, record⟩ := entered.record
  rw [record, blind]

theorem body_nil (entered : file.LambdaEntered middle method params position)
    (around : List Frame) : middle.BodyShown around ⟨file.methods.size⟩ [] := by
  refine .nil (fun part isBody => ?_) (entered.read Method.lambdas fun _ _ => rfl)
  rw [entered.read (fun record => part.list record) fun record params => by
    cases part <;> first | rfl | cases isBody]
  cases part <;> rfl

/-- Around a lambda there is what is in scope where it stands. -/
theorem scopeAround (entered : file.LambdaEntered middle method params position)
    (reachable : file.Reachable) (known : method.index < file.methods.size) :
    middle.scopeAround ⟨file.methods.size⟩ =
      ⟨method, (file.methodAt method).locals.length⟩ :: file.scopeAround method := by
  rw [entered.reachable.wellFormed.scopeAround_of_parent
    (entered.read Method.parent fun _ _ => rfl), entered.outer]
  refine congrArg _ (reachable.wellFormed.scopeAround_eq entered.reachable.wellFormed ?_ ?_)
  · rw [entered.outer]
  · exact fun outer before =>
      entered.prolongs.methodAt (Nat.lt_trans before known) (Nat.ne_of_lt before)

/-- The body of the lambda does not change the method around it. -/
theorem outer_kept (entered : file.LambdaEntered middle method params position)
    (known : method.index < file.methods.size)
    (read : middle.BodyRead later ⟨file.methods.size⟩) :
    later.methodAt method = { file.methodAt method with
      lambdas := (file.methodAt method).lambdas ++ [⟨file.methods.size⟩] } :=
  (read.before entered.known known).trans entered.outer

theorem bodyRead (entered : file.LambdaEntered middle method params position)
    (known : method.index < file.methods.size)
    (read : middle.BodyRead later ⟨file.methods.size⟩) : file.BodyRead later method where
  reachable := read.reachable
  prolongs := entered.prolongs.trans read.prolongs fun i old new => absurd new (Nat.ne_of_lt old)
  types := read.types.trans entered.types
  head := by rw [HeadKept, entered.outer_kept known read]; rfl
  locals := ⟨[], by rw [entered.outer_kept known read, List.append_nil]⟩

/-- Once its body is read, the lambda is what the document says of it. -/
theorem lambdaShown (entered : file.LambdaEntered middle method params position)
    (known : method.index < file.methods.size)
    (read : middle.BodyRead later ⟨file.methods.size⟩) (declared : Nat)
    (body : List BodyElement) :
    later.LambdaShown method ⟨file.methods.size⟩ { declared, params, body, position } := by
  have bare {α : Type} (observe : Method → α)
      (blind : ∀ record : Method, observe record.head = observe record)
      (params_blind : ∀ record params, observe { record with params } = observe record) :
      observe (later.methodAt ⟨file.methods.size⟩) = observe (file.newLambda method position) :=
    (read.head.read observe blind).trans (entered.read observe params_blind)
  refine ⟨?_, ?_, ?_, ?_, ?_, ?_⟩
  · exact bare Method.kind (fun _ => rfl) fun _ _ => rfl
  · exact bare Method.parent (fun _ => rfl) fun _ _ => rfl
  · rw [bare Method.declaring (fun _ => rfl) fun _ _ => rfl, entered.outer_kept known read]
    rfl
  · exact bare Method.isStatic (fun _ => rfl) fun _ _ => rfl
  · exact bare Method.position (fun _ => rfl) fun _ _ => rfl
  · exact entered.shown.prolong entered.reachable.wellFormed read.prolongs entered.known read.head

end LambdaEntered

/-- A lambda is added to its method, and then read like a method of its own. -/
theorem BodyShown.lambda {body inner : List BodyElement} {params : List ParamNode}
    {position : Option Position}
    (shown : file.BodyShown (file.scopeAround method) method body) (reachable : file.Reachable)
    (known : method.index < file.methods.size)
    (entered : file.LambdaEntered middle method params position)
    (read : middle.BodyRead later ⟨file.methods.size⟩)
    (inside : later.BodyShown (middle.scopeAround ⟨file.methods.size⟩) ⟨file.methods.size⟩ inner) :
    file.BodyRead later method ∧
      later.BodyShown (file.scopeAround method) method
        (body ++ [.lambda params inner position]) := by
  have outer := entered.outer_kept known read
  have whole := entered.bodyRead known read
  rw [entered.scopeAround reachable known, shown.length_locals] at inside
  refine ⟨whole, shown.extend reachable known whole (fun part isBody => ⟨[], ?_, ?_⟩) ?_⟩
  · rw [outer, List.append_nil]
    cases part <;> rfl
  · cases part <;> rfl
  · refine ⟨[⟨file.methods.size⟩], by rw [outer], rfl, ?_⟩
    rintro _ member node ⟨⟩
    obtain rfl := List.mem_singleton.mp member
    exact ⟨entered.lambdaShown known read _ inner, inside⟩

/-! ### Bodies -/

/-- Whatever is read into a method, with lambdas nested as deep as the budget allows, is shown. -/
def ShowsBodies (budget : Nat) : Prop :=
  ∀ {file later : File} {method : Handle .method} {body others : List BodyElement},
    file.Reachable → method.index < file.methods.size →
    file.BodyShown (file.scopeAround method) method body →
    file.lowerBody budget method others = .ok later →
    file.BodyRead later method ∧
      later.BodyShown (file.scopeAround method) method (body ++ others)

theorem lowerElement_shown {budget : Nat} (deeper : ∀ rest, budget = rest + 1 → ShowsBodies rest)
    {body : List BodyElement} {element : BodyElement} (reachable : file.Reachable)
    (known : method.index < file.methods.size)
    (shown : file.BodyShown (file.scopeAround method) method body)
    (lowered : file.lowerElement budget method element = .ok later) :
    file.BodyRead later method ∧
      later.BodyShown (file.scopeAround method) method (body ++ [element]) := by
  cases element with
  | lambda params inner position =>
      cases budget with
      | zero => cases lowered
      | succ rest =>
          have entered := lambdaEntered_lowerParams reachable known params position
          obtain ⟨read, inside⟩ :=
            deeper rest rfl entered.reachable entered.known (entered.body_nil _) lowered
          exact shown.lambda reachable known entered read inside
  | _ => exact lowerElement_shown_of_plain (fun _ => rfl) reachable known shown lowered

theorem lowerBody_shown_of_deeper {budget : Nat}
    (deeper : ∀ rest, budget = rest + 1 → ShowsBodies rest) : ShowsBodies budget := by
  intro file later method body others reachable known shown lowered
  induction others generalizing file body with
  | nil =>
      obtain rfl := Except.ok.inj lowered
      exact ⟨.refl reachable method, by rw [List.append_nil]; exact shown⟩
  | cons element rest inductionHypothesis =>
      rw [lowerBody] at lowered
      obtain ⟨middle, first, others⟩ := bind_eq_ok_iff.mp lowered
      obtain ⟨read, elementShown⟩ := lowerElement_shown deeper reachable known shown first
      have around := read.scopeAround reachable known
      obtain ⟨restRead, restShown⟩ := inductionHypothesis read.reachable (read.known known)
        (around ▸ elementShown) others
      rw [around, List.append_assoc] at restShown
      exact ⟨read.trans restRead, restShown⟩

/-- A body that is read is shown by its method, after what the method showed already. -/
theorem lowerBody_shown (budget : Nat) : ShowsBodies budget := by
  induction budget with
  | zero => exact lowerBody_shown_of_deeper fun rest same => absurd same (Nat.succ_ne_zero rest).symm
  | succ rest inductionHypothesis =>
      refine lowerBody_shown_of_deeper fun other same => ?_
      obtain rfl := Nat.succ.inj same
      exact inductionHypothesis

end File

end Correlate.Source
