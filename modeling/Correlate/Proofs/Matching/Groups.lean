/-
Module: Correlate.Proofs.Matching.Groups
Purpose: Passes that match the elements of two methods group by group.
Main exports: Paired, InOrder, PairedInOrder, pairZip_links, pairZip_inOrder, GroupSettled,
  foldl_groups
-/
import Correlate.Proofs.Grouping
import Correlate.Proofs.Matching.Links

namespace Correlate

theorem fst_zip_sublist {α β : Type} : ∀ (first : List α) (second : List β),
    ((first.zip second).map Prod.fst).Sublist first
  | [], _ => List.Sublist.refl _
  | _ :: _, [] => List.nil_sublist _
  | _ :: rest, _ :: others => (fst_zip_sublist rest others).cons_cons _

theorem snd_zip_sublist {α β : Type} : ∀ (first : List α) (second : List β),
    ((first.zip second).map Prod.snd).Sublist second
  | [], _ => List.nil_sublist _
  | _ :: _, [] => List.Sublist.refl _
  | _ :: rest, _ :: others => (snd_zip_sublist rest others).cons_cons _

namespace Matching

variable {setting : Setting} {sourceKind : Source.Kind} {compiledKind : Compiled.Kind}

/-! ### Pairs of lists -/

/-- The elements of two lists are matched position by position. -/
def Paired (setting : Setting) (file : Source.File) (sources : List (Source.Handle sourceKind))
    (compiled : List (Compiled.Handle compiledKind)) : Prop :=
  ∀ (i : Nat) own other, sources[i]? = some own → compiled[i]? = some other →
    file.link? own.ref = some ⟨other.ref, setting.pool.elementId other.ref⟩

/-- A match of an element of one list with an element of another. -/
def Between (sources : List (Source.Handle sourceKind))
    (compiled : List (Compiled.Handle compiledKind)) (own : Source.Ref)
    (other : Compiled.Ref) : Prop :=
  ∃ a ∈ sources, ∃ c ∈ compiled, own = a.ref ∧ other = c.ref

/-- A match of elements at the same place of two lists. -/
def Zipped (sources : List (Source.Handle sourceKind))
    (compiled : List (Compiled.Handle compiledKind)) (own : Source.Ref)
    (other : Compiled.Ref) : Prop :=
  ∃ a c, (a, c) ∈ sources.zip compiled ∧ own = a.ref ∧ other = c.ref

theorem Zipped.between {sources : List (Source.Handle sourceKind)}
    {compiled : List (Compiled.Handle compiledKind)} {own : Source.Ref} {other : Compiled.Ref}
    (zipped : Zipped sources compiled own other) : Between sources compiled own other := by
  obtain ⟨a, c, member, same⟩ := zipped
  exact ⟨a, (List.of_mem_zip member).1, c, (List.of_mem_zip member).2, same⟩

/-- The order of lines does not keep two lists from being paired. -/
def InOrder (setting : Setting) (file : Source.File) (sources : List (Source.Handle sourceKind))
    (compiled : List (Compiled.Handle compiledKind)) : Prop :=
  setting.options.verifyOrdering = false ∨
    firstInversion? (pairLines file setting.pool (State.zipRefs sources compiled)) = none

/-- Two lists of the same length are paired unless the order of lines forbids it. -/
def PairedInOrder (setting : Setting) (file : Source.File)
    (sources : List (Source.Handle sourceKind)) (compiled : List (Compiled.Handle compiledKind)) :
    Prop :=
  sources.length = compiled.length → InOrder setting file sources compiled →
    Paired setting file sources compiled

variable {sources : List (Source.Handle sourceKind)}
  {compiled : List (Compiled.Handle compiledKind)}

/-- Files with the same lines have the same order. -/
theorem InOrder.of_lines {file later : Source.File}
    (lines : ∀ own ∈ sources, later.startLine? own.ref = file.startLine? own.ref) :
    InOrder setting later sources compiled ↔ InOrder setting file sources compiled := by
  have same : pairLines later setting.pool (State.zipRefs sources compiled) =
      pairLines file setting.pool (State.zipRefs sources compiled) := by
    apply List.map_congr_left
    intro pair member
    obtain ⟨own, other, zipped, rfl⟩ := mem_zipRefs.mp member
    exact congrArg (·, setting.pool.elementLine other.ref) (lines own (List.of_mem_zip zipped).1)
  rw [InOrder, InOrder, same]

theorem Paired.mono {file later : Source.File}
    (kept : ∀ element link, file.link? element = some link → later.link? element = some link)
    (paired : Paired setting file sources compiled) : Paired setting later sources compiled :=
  fun i own other isOwn isOther => kept _ _ (paired i own other isOwn isOther)

theorem PairedInOrder.mono {file later : Source.File}
    (lines : ∀ own ∈ sources, later.startLine? own.ref = file.startLine? own.ref)
    (kept : ∀ element link, file.link? element = some link → later.link? element = some link)
    (paired : PairedInOrder setting file sources compiled) :
    PairedInOrder setting later sources compiled :=
  fun sized ordered => (paired sized ((InOrder.of_lines lines).mp ordered)).mono kept

theorem PairedInOrder.grow {state later : State} (grown : state.Grows later)
    (known : ∀ own ∈ sources, own.index < state.file.count sourceKind)
    (paired : PairedInOrder setting state.file sources compiled) :
    PairedInOrder setting later.file sources compiled :=
  paired.mono (fun own member => grown.extended.startLine (known own member)) grown.extended.links

theorem LinkSteps.pairedInOrder {permitted : Source.Ref → Compiled.Ref → Prop}
    {state later : State} (steps : LinkSteps setting permitted state later)
    (paired : PairedInOrder setting state.file sources compiled) :
    PairedInOrder setting later.file sources compiled :=
  paired.mono (fun own _ => steps.gains.relinked.startLine own.ref) steps.gains.link_kept

theorem ref_injective {kind : Source.Kind} : Function.Injective (@Source.Handle.ref kind) := by
  rintro ⟨i⟩ ⟨j⟩ same
  simpa [Source.Handle.ref] using same

theorem compiledRef_injective {kind : Compiled.Kind} :
    Function.Injective (@Compiled.Handle.ref kind) := by
  rintro ⟨i⟩ ⟨j⟩ same
  simpa [Compiled.Handle.ref] using same

theorem fst_zipRefs (shorter : sources.length ≤ compiled.length) :
    (State.zipRefs sources compiled).map Prod.fst = sources.map Source.Handle.ref := by
  rw [State.zipRefs, List.map_fst_zip]
  simpa using shorter

theorem snd_zipRefs (shorter : compiled.length ≤ sources.length) :
    (State.zipRefs sources compiled).map Prod.snd = compiled.map Compiled.Handle.ref := by
  rw [State.zipRefs, List.map_snd_zip]
  simpa using shorter

/-- Two open lists of the same length are paired position by position. -/
theorem pairZip_links {state : State} (group : String) (sized : sources.length = compiled.length)
    (sources_nodup : sources.Nodup) (compiled_nodup : compiled.Nodup)
    (unlinked : ∀ own ∈ sources, state.file.isLinked own.ref = false)
    (opened : ∀ other ∈ compiled, state.isConsumed other.ref = false) :
    let final := state.pairGroup setting group (State.zipRefs sources compiled)
    LinkSteps setting (Zipped sources compiled) state final ∧
      PairedInOrder setting final.file sources compiled ∧
      ∀ own ∈ sources, final.Settled own.ref := by
  have fsts := fst_zipRefs (Nat.le_of_eq sized)
  have snds := snd_zipRefs (Nat.le_of_eq sized.symm)
  obtain ⟨steps, linked, settled⟩ := @pairGroup_links setting state
    (State.zipRefs sources compiled) group
    (by rw [fsts]; exact sources_nodup.map ref_injective)
    (by rw [snds]; exact compiled_nodup.map compiledRef_injective)
    (fun pair member => by
      obtain ⟨own, other, zipped, rfl⟩ := mem_zipRefs.mp member
      exact unlinked own (List.of_mem_zip zipped).1)
    (fun pair member => by
      obtain ⟨own, other, zipped, rfl⟩ := mem_zipRefs.mp member
      exact opened other (List.of_mem_zip zipped).2)
  refine ⟨steps.mono fun own other member => ?_, fun _ ordered i own other isOwn isOther => ?_,
    fun own member => ?_⟩
  · obtain ⟨a, c, zipped, same⟩ := mem_zipRefs.mp member
    exact ⟨a, c, zipped, congrArg Prod.fst same, congrArg Prod.snd same⟩
  · have lines := (InOrder.of_lines fun own _ => steps.gains.relinked.startLine own.ref).mp ordered
    refine linked lines (own.ref, other.ref) (mem_zipRefs.mpr ⟨own, other, ?_, rfl⟩)
    exact List.mem_of_getElem? (List.getElem?_zip_eq_some.mpr ⟨isOwn, isOther⟩)
  · have member' : own.ref ∈ (State.zipRefs sources compiled).map Prod.fst := by
      rw [fsts]
      exact List.mem_map_of_mem member
    obtain ⟨pair, paired, same⟩ := List.mem_map.mp member'
    exact same ▸ settled pair paired

/-- Nothing is paired where the order of lines forbids it. -/
theorem pairZip_inOrder {state : State} (group : String) (sized : sources.length = compiled.length)
    (sources_nodup : sources.Nodup) (compiled_nodup : compiled.Nodup)
    (unlinked : ∀ own ∈ sources, state.file.isLinked own.ref = false)
    (opened : ∀ other ∈ compiled, state.isConsumed other.ref = false) :
    LinkSteps setting
      (fun own other => Zipped sources compiled own other ∧
        InOrder setting state.file sources compiled)
      state (state.pairGroup setting group (State.zipRefs sources compiled)) := by
  by_cases ordered : InOrder setting state.file sources compiled
  · exact (pairZip_links group sized sources_nodup compiled_nodup unlinked opened).1.mono
      fun _ _ zipped => ⟨zipped, ordered⟩
  · unfold InOrder at ordered
    rw [not_or, Bool.not_eq_false] at ordered
    unfold State.pairGroup
    dsimp only
    rw [if_pos ordered.1]
    split
    · exact .single (.note _ nofun)
    · next uninverted => exact absurd uninverted ordered.2

/-! ### What passes come to -/

/-- Where every element of a list is open, the open ones are all of them. -/
theorem State.openOf_eq {kind : Compiled.Kind} {state : State}
    {elements : List (Compiled.Handle kind)}
    (opened : ∀ element ∈ elements, state.isConsumed element.ref = false) :
    state.openOf elements = elements :=
  List.filter_eq_self.mpr fun element member => by rw [opened element member]; rfl

/-- What a pass over elements of one kind brings the body of a method to: elements that are equally
many on both sides are paired by position, and every element is matched or something was noted. -/
def GroupSettled (setting : Setting) (state : State)
    (sources : List (Source.Handle sourceKind)) (compiled : List (Compiled.Handle compiledKind)) :
    Prop :=
  PairedInOrder setting state.file sources compiled ∧ ∀ own ∈ sources, state.Settled own.ref

namespace GroupSettled

theorem nil (state : State) :
    GroupSettled setting state ([] : List (Source.Handle sourceKind)) compiled :=
  ⟨fun _ _ _ _ _ isOwn => by simp at isOwn, nofun⟩

theorem lasting {permitted : Source.Ref → Compiled.Ref → Prop} {state later : State}
    (steps : LinkSteps setting permitted state later)
    (settled : GroupSettled setting state sources compiled) :
    GroupSettled setting later sources compiled :=
  ⟨steps.pairedInOrder settled.1, fun own member => steps.settled (settled.2 own member)⟩

theorem grow {state later : State} (grown : state.Grows later)
    (known : ∀ own ∈ sources, own.index < state.file.count sourceKind)
    (settled : GroupSettled setting state sources compiled) :
    GroupSettled setting later sources compiled :=
  ⟨settled.1.grow grown known, fun own member => grown.settled (settled.2 own member)⟩

/-- Only groups with elements need to be settled. -/
theorem of_present {state : State}
    (settled : ∀ own ∈ sources, GroupSettled setting state sources compiled) :
    GroupSettled setting state sources compiled := by
  cases sources with
  | nil => exact .nil state
  | cons first rest => exact settled first List.mem_cons_self

/-- A note settles groups of different sizes. -/
theorem of_notice {state : State} (line : Option Nat) (finding : Finding)
    (uneven : sources.length ≠ compiled.length) :
    GroupSettled setting (state.notice line finding) sources compiled :=
  ⟨fun sized => absurd sized uneven, fun _ _ => .inr (State.noticed_notice _ _)⟩

end GroupSettled

/-! ### Passes -/

/-- A pass goes through the groups of some elements.  Group by group, it matches elements of a group
with elements of the other side that have the same key.  If all elements are open at the start, then
those of a group are open when its turn comes, and what every group comes to lasts. -/
theorem foldl_groups {κ : Type} [DecidableEq κ] {start : State}
    {key : Source.Handle sourceKind → κ} {compiledKey : Compiled.Handle compiledKind → κ}
    {step : State → κ × List (Source.Handle sourceKind) → State}
    {permitted : κ → Source.Ref → Compiled.Ref → Prop} {done : κ → State → Prop}
    {groups : Grouping κ (Source.Handle sourceKind)}
    (chosen : groups.Sublist (groupBy key sources))
    (within : ∀ k own other, permitted k own other →
      Between (sources.filter (key · = k)) (compiled.filter (compiledKey · = k)) own other)
    (advance : ∀ k state, (k, sources.filter (key · = k)) ∈ groups →
      LinkSteps setting anyMatch start state →
      (∀ own ∈ sources.filter (key · = k), state.file.isLinked own.ref = false) →
      (∀ other ∈ compiled.filter (compiledKey · = k), state.isConsumed other.ref = false) →
      LinkSteps setting (permitted k) state (step state (k, sources.filter (key · = k))) ∧
        done k (step state (k, sources.filter (key · = k))))
    (lasting : ∀ k state later, LinkSteps setting anyMatch state later → done k state →
      done k later)
    (unlinked : ∀ own ∈ sources, start.file.isLinked own.ref = false)
    (opened : ∀ other ∈ compiled, start.isConsumed other.ref = false) :
    LinkSteps setting
      (fun own other => ∃ k, (k, sources.filter (key · = k)) ∈ groups ∧ permitted k own other)
      start (groups.foldl step start) ∧
    ∀ k, (k, sources.filter (key · = k)) ∈ groups → done k (groups.foldl step start) := by
  have members {k : κ} {elements : List (Source.Handle sourceKind)}
      (member : (k, elements) ∈ groups) : elements = sources.filter (key · = k) :=
    (mem_groupBy.mp (chosen.subset member)).2
  have pass := @foldl_links _ setting start step (fun group => permitted group.1)
    (fun group state =>
      (∀ own ∈ sources.filter (key · = group.1), state.file.isLinked own.ref = false) ∧
        ∀ other ∈ compiled.filter (compiledKey · = group.1), state.isConsumed other.ref = false)
    (fun group state => done group.1 state) groups
  obtain ⟨steps, ends⟩ := by
    refine pass ?advance ?kept (fun group _ => lasting group.1) ?ready
    case advance =>
      rintro ⟨k, elements⟩ member state steps clear
      obtain rfl := members member
      exact advance k state member steps clear.1 clear.2
    case kept =>
      refine ((groupBy_keys_apart key sources).sublist chosen).imp
        fun {group next} apart state later steps clear => ⟨?_, ?_⟩
      · refine fun own member => steps.unlinked (clear.1 own member) fun _ permission => ?_
        obtain ⟨a, isMember, _, _, same, _⟩ := within _ _ _ permission
        obtain rfl := ref_injective same
        have groupKey := of_decide_eq_true (List.mem_filter.mp isMember).2
        exact apart (groupKey.symm.trans (of_decide_eq_true (List.mem_filter.mp member).2))
      · refine fun other member => steps.opened (clear.2 other member) fun _ permission => ?_
        obtain ⟨_, _, c, isMember, _, same⟩ := within _ _ _ permission
        obtain rfl := compiledRef_injective same
        have groupKey := of_decide_eq_true (List.mem_filter.mp isMember).2
        exact apart (groupKey.symm.trans (of_decide_eq_true (List.mem_filter.mp member).2))
    case ready =>
      exact fun group _ => ⟨fun own member => unlinked own (List.mem_filter.mp member).1,
        fun other member => opened other (List.mem_filter.mp member).1⟩
  refine ⟨steps.mono fun own other permission => ?_, fun k member => ends _ member⟩
  obtain ⟨⟨k, elements⟩, member, allowed⟩ := permission
  obtain rfl := members member
  exact ⟨k, member, allowed⟩

end Matching

end Correlate
