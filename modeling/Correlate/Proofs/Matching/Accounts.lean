/-
Module: Correlate.Proofs.Matching.Accounts
Purpose: The registry of a run and the links in its files tell the same.
Main exports: linkAt, Accounted, Accounted.once, Accounted.isConsumed_iff
-/
import Mathlib.Data.List.Nodup
import Correlate.Matching.Registry
import Correlate.Proofs.Source.Extension

namespace Correlate.Matching

/-!
A match is kept in three places: the set of taken elements, the log of matches, and the link of the
source element.  `Accounted` says that the three agree.
-/

/-- The link of an element of one of several files. -/
def linkAt (files : List Source.File) (handle : SourceHandle) : Option Source.Link :=
  files[handle.file]?.bind fun file => file.link? handle.element

theorem linkAt_append_of_lt {done : List Source.File} {handle : SourceHandle}
    (earlier : handle.file < done.length) (files : List Source.File) :
    linkAt (done ++ files) handle = linkAt done handle := by
  rw [linkAt, linkAt, List.getElem?_append_left earlier]

theorem linkAt_last (done : List Source.File) (file : Source.File) (element : Source.Ref) :
    linkAt (done ++ [file]) ⟨done.length, element⟩ = file.link? element := by
  rw [linkAt, List.getElem?_append_right (Nat.le_refl _), Nat.sub_self]
  rfl

theorem linkAt_of_le {files : List Source.File} {handle : SourceHandle}
    (unknown : files.length ≤ handle.file) : linkAt files handle = none := by
  rw [linkAt, List.getElem?_eq_none unknown]
  rfl

/-- A link in the last of several files, or in one before it. -/
theorem linkAt_append_single {done : List Source.File} {file : Source.File} {handle : SourceHandle}
    {link : Source.Link} : linkAt (done ++ [file]) handle = some link ↔
      linkAt done handle = some link ∨
        handle.file = done.length ∧ file.link? handle.element = some link := by
  obtain ⟨i, element⟩ := handle
  rcases Nat.lt_trichotomy i done.length with earlier | rfl | later
  · rw [linkAt_append_of_lt earlier]
    exact ⟨.inl, fun either => either.resolve_right fun last => absurd last.1 (Nat.ne_of_lt earlier)⟩
  · rw [linkAt_last, linkAt_of_le (Nat.le_refl _)]
    exact ⟨fun found => .inr ⟨rfl, found⟩, fun either => (either.resolve_left nofun).2⟩
  · have unknown : linkAt (done ++ [file]) ⟨i, element⟩ = none :=
      linkAt_of_le (by rw [List.length_append]; exact later)
    rw [unknown, linkAt_of_le (Nat.le_of_lt later)]
    exact ⟨nofun, fun either => absurd (either.resolve_left nofun).1 (Nat.ne_of_gt later)⟩

theorem linkAt_congr_last (done : List Source.File) {file later : Source.File}
    (same : later.links = file.links) (handle : SourceHandle) :
    linkAt (done ++ [later]) handle = linkAt (done ++ [file]) handle := by
  apply Option.ext
  intro link
  rw [linkAt_append_single, linkAt_append_single, Source.File.link?, Source.File.link?, same]

/-- The registry tells which elements of the files are linked to what. -/
structure Accounted (pool : Compiled.Pool) (files : List Source.File) (registry : Registry) :
    Prop where
  named : ∀ entry ∈ registry.log.toList, entry.id = pool.elementId entry.compiled
  apart : (registry.log.toList.map Match.compiled).Nodup
  consumed : ∀ element, registry.isConsumed element = true ↔
    element ∈ registry.log.toList.map Match.compiled
  logged : ∀ entry, entry ∈ registry.log.toList ↔
    linkAt files entry.source = some ⟨entry.compiled, entry.id⟩

namespace Accounted

variable {pool : Compiled.Pool} {files : List Source.File} {registry : Registry}

theorem empty (pool : Compiled.Pool) : Accounted pool [] {} where
  named := nofun
  apart := List.nodup_nil
  consumed element := by simp [Registry.isConsumed]
  logged entry := by simp [linkAt]

/-- Only the links of the files matter. -/
theorem of_links (accounted : Accounted pool files registry) {later : List Source.File}
    (same : ∀ handle, linkAt later handle = linkAt files handle) : Accounted pool later registry where
  named := accounted.named
  apart := accounted.apart
  consumed := accounted.consumed
  logged entry := by rw [same]; exact accounted.logged entry

/-- A new file has no links. -/
theorem addFile (accounted : Accounted pool files registry) {file : Source.File}
    (unlinked : ∀ element, file.isLinked element = false) :
    Accounted pool (files ++ [file]) registry := by
  refine accounted.of_links fun handle => Option.ext fun link => ?_
  refine linkAt_append_single.trans ⟨fun either => either.resolve_right fun last => ?_, .inl⟩
  exact absurd last.2 (Source.File.not_link_of_unlinked (unlinked handle.element))

/-- The links and the log are known by each other. -/
theorem mem_log (accounted : Accounted pool files registry) {handle : SourceHandle}
    {link : Source.Link} (linked : linkAt files handle = some link) :
    ⟨link.compiled, link.id, handle⟩ ∈ registry.log.toList :=
  (accounted.logged _).mpr linked

theorem id_eq (accounted : Accounted pool files registry) {handle : SourceHandle}
    {link : Source.Link} (linked : linkAt files handle = some link) :
    link.id = pool.elementId link.compiled :=
  accounted.named _ (accounted.mem_log linked)

/-- No two elements are linked to one compiled element. -/
theorem once (accounted : Accounted pool files registry) {handle other : SourceHandle}
    {link otherLink : Source.Link} (linked : linkAt files handle = some link)
    (otherLinked : linkAt files other = some otherLink)
    (same : link.compiled = otherLink.compiled) : handle = other :=
  congrArg Match.source (List.inj_on_of_nodup_map accounted.apart (accounted.mem_log linked)
    (accounted.mem_log otherLinked) same)

/-- Exactly what is linked is taken. -/
theorem isConsumed_iff (accounted : Accounted pool files registry) {element : Compiled.Ref} :
    registry.isConsumed element = true ↔
      ∃ handle link, linkAt files handle = some link ∧ link.compiled = element := by
  rw [accounted.consumed, List.mem_map]
  constructor
  · rintro ⟨entry, logged, rfl⟩
    exact ⟨entry.source, _, (accounted.logged entry).mp logged, rfl⟩
  · rintro ⟨handle, link, linked, rfl⟩
    exact ⟨_, accounted.mem_log linked, rfl⟩

/-- A match of two open elements of the last file. -/
theorem record {done : List Source.File} {file later : Source.File} {own : Source.Ref}
    {other : Compiled.Ref} (accounted : Accounted pool (done ++ [file]) registry)
    (opened : registry.isConsumed other = false) (unlinked : file.isLinked own = false)
    (linked : ∀ element, later.link? element =
      if own = element then some ⟨other, pool.elementId other⟩ else file.link? element) :
    Accounted pool (done ++ [later])
      { consumed := registry.consumed.insert other
        log := registry.log.push ⟨other, pool.elementId other, ⟨done.length, own⟩⟩ } where
  named entry logged := by
    simp only [Array.toList_push, List.mem_append, List.mem_singleton] at logged
    rcases logged with before | rfl
    · exact accounted.named entry before
    · rfl
  apart := by
    rw [Array.toList_push, List.map_append, List.nodup_append]
    refine ⟨accounted.apart, List.nodup_singleton _, ?_⟩
    rintro element taken _ isOther rfl
    obtain rfl := List.mem_singleton.mp isOther
    rw [(accounted.consumed element).mpr taken] at opened
    cases opened
  consumed element := by
    rw [Array.toList_push, List.map_append, List.mem_append, ← accounted.consumed]
    simp only [Registry.isConsumed, Std.TreeSet.contains_insert, Bool.or_eq_true, beq_iff_eq,
      Std.LawfulEqCmp.compare_eq_iff_eq, List.map_cons, List.map_nil, List.mem_singleton]
    rw [or_comm, @eq_comm _ other]
  logged := by
    have linked_own : later.link? own = some ⟨other, pool.elementId other⟩ := by simp [linked own]
    have absent : file.link? own = none := by
      rw [Source.File.isLinked, Option.isSome_eq_false_iff, Option.isNone_iff_eq_none] at unlinked
      exact unlinked
    rintro ⟨compiled, id, handle, element⟩
    rw [Array.toList_push, List.mem_append, accounted.logged, List.mem_singleton,
      linkAt_append_single, linkAt_append_single]
    by_cases last : handle = done.length
    · subst last
      rw [linkAt_of_le (Nat.le_refl _)]
      by_cases isOwn : own = element
      · subst isOwn
        simp [linked_own, absent, eq_comm]
      · simp [linked element, isOwn, Ne.symm isOwn]
    · simp [last]

end Accounted

end Correlate.Matching
