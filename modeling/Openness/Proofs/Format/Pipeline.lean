import Openness.Proofs.Completion.Joins
import Openness.Proofs.Format.Accepted
import Openness.Proofs.Merge
import Openness.Proofs.Remap.Preimages
import Openness.Proofs.Remap.Table

/-!
# Processing stays in the text format

Sets are read, merged, completed and renamed in any order (`TransformSet.Processed`), and
what comes of it can be written and read back. The invariant is that there are words for
all that is asked in the set (`TransformSet.Writable`): what is read has words, and each
operation either keeps the words or takes new ones from what it is given.

* Merging asks nothing new (`Writable.merge`).
* A class that inherits takes methods from other classes, but its own name from the
  hierarchy (`Writable.inherit`). The walk up meets known classes only, whatever the
  hierarchy is like: it may have cycles here.
* Renaming makes names of old ones and of those in the table (`Writable.remap`). As a
  name may also meet one that is there already, the slots are followed back to where they
  come from.

A set may hold classes that nothing is asked of. These leave no trace in the text, and
their names do not matter (`TransformSet.processed_survives`).
-/

namespace Openness

namespace TransformSet

open Format

variable {s : TransformSet} {h : Hierarchy} {c : ClassHeader} {n : String} {slot : Slot}

/-! ## Sets that can be written -/

/-- There are words for all that is asked in a set. -/
def Writable (s : TransformSet) : Prop :=
  ∀ n slot, s.get n slot ≠ .neutral → IsClassName n ∧ SlotWritable slot

namespace Writable

/-- What is read can be written. -/
theorem of_read {settings : Settings} {bytes : List UInt8}
    (h : (read settings bytes).result = .ok s) : s.Writable := by
  obtain ⟨ds, hds, rfl⟩ := exists_directives_of_readLines h
  intro n slot hget
  obtain ⟨d, hd, rfl, rfl⟩ := exists_mem_of_get_follow_ne hget
  exact ⟨(hds d hd).className, (hds d hd).slot⟩

/-- A set that can be written is read back, but for the classes that nothing is asked
    of. -/
theorem parse_write (hs : s.Writable) (settings : Settings) :
    ∃ t, (parse {} (write settings s)).result = .ok t ∧ (t == s.trim) = true := by
  have hds : ∀ d ∈ s.directives, d.Writable := fun d hd => by
    obtain ⟨hget, ht⟩ := mem_directives.1 hd
    obtain ⟨hname, hslot⟩ := hs d.className d.slot (hget.trans_ne ht)
    exact ⟨ht, hname, hslot⟩
  exact ⟨follow ∅ s.directives, by rw [Format.parse_write hds], s.follow_directives⟩

theorem merge {t : TransformSet} (hs : s.Writable) (ht : t.Writable) : (s.merge t).Writable := by
  intro n slot hget
  rw [get_merge, ne_eq, Transform.max_eq_neutral, not_and_or] at hget
  exact hget.elim (hs n slot) (ht n slot)

end Writable

/-! ## Completion -/

/-- A class inherits only what was asked of the same method somewhere. -/
theorem get_inherit_ne (hget : (s.inherit h c).get n slot ≠ .neutral) :
    s.get n slot ≠ .neutral ∨
      n = c.name ∧ ∃ m p, slot = .method m ∧ s.get p (.method m) ≠ .neutral := by
  rw [get, entry, find?_inherit] at hget
  split at hget
  · rename_i hn
    subst hn
    cases slot with
    | method m =>
      change (Slots.joinAll _ _).get m ≠ _ at hget
      rw [Slots.get_joinAll, ne_eq, Transform.max_eq_neutral, not_and_or] at hget
      refine hget.imp_right fun hasked => ⟨rfl, m, ?_⟩
      rw [← Transform.le_neutral_iff, asked_inherited_le_iff] at hasked
      push Not at hasked
      obtain ⟨p, -, -, hp⟩ := hasked
      exact ⟨p.name, rfl, fun hneutral => hp hneutral.le⟩
    | _ => exact .inl hget
  · exact .inl hget

namespace Writable

theorem inherit (hs : s.Writable) (hc : IsClassName c.name) : (s.inherit h c).Writable := by
  intro n slot hget
  rcases get_inherit_ne hget with hget | ⟨rfl, m, p, rfl, hp⟩
  · exact hs n slot hget
  · exact ⟨hc, (hs p (.method m) hp).2⟩

theorem inheritAll {cs : List ClassHeader} (hs : s.Writable) (hcs : ∀ c ∈ cs, IsClassName c.name) :
    (inheritAll h cs s).1.Writable := by
  induction cs generalizing s with
  | nil => exact hs
  | cons c cs ih =>
    obtain ⟨hc, hcs⟩ := List.forall_mem_cons.1 hcs
    exact ih (hs.inherit hc) hcs

/-- Completion names the classes that it is asked for and known ones. -/
theorem completeFrom {roots : List ClassHeader} (hs : s.Writable)
    (hroots : ∀ c ∈ roots, IsClassName c.name) (hh : ∀ c ∈ h.toList, IsClassName c.name) :
    (s.completeFrom h roots).1.Writable := by
  refine hs.inheritAll fun c hc => ?_
  rcases Hierarchy.mem_completionOrder hc with hc | hc
  · exact hroots c hc
  · exact hh c (Roster.mem_toList.2 hc)

/-! ## Renaming -/

/-- What is asked under the new names is asked of something that goes there. -/
theorem remap {t : RenameTable} (hs : s.Writable) (ht : t.Writable) :
    (s.remap t.renamer).1.Writable := by
  intro n slot hget
  have hle : ¬(s.remapped t.renamer).get n slot ≤ .neutral :=
    fun hle => hget (Transform.le_neutral_iff.1 hle)
  rw [get_remapped_le_iff] at hle
  push Not at hle
  obtain ⟨c, hc, rfl, slot', rfl, hne⟩ := hle
  rw [← get_of_find? (mem_classes.1 hc)] at hne
  obtain ⟨hname, hslot⟩ := hs c.name slot' fun hneutral => hne hneutral.le
  exact ⟨ht.classTarget hname, ht.slotTarget hslot _⟩

end Writable

/-! ## Any processing -/

/-- The sets that come of reading, merging, completing and renaming, as long as there are
    words for the names that are brought in: those of the classes of a hierarchy and
    those of a table. -/
inductive Processed : TransformSet → Prop
  /-- A set is read. -/
  | read {settings : Settings} {bytes : List UInt8} {s : TransformSet} :
      (read settings bytes).result = .ok s → Processed s
  /-- A set is merged into another one. -/
  | merge {s t : TransformSet} : Processed s → Processed t → Processed (s.merge t)
  /-- A class is completed. -/
  | complete {s : TransformSet} {h : Hierarchy} {c : ClassHeader} :
      (∀ d ∈ h.toList, IsClassName d.name) → IsClassName c.name → Processed s →
        Processed (s.complete h c).1
  /-- All classes are completed. -/
  | completeAll {s : TransformSet} {h : Hierarchy} :
      (∀ d ∈ h.toList, IsClassName d.name) → Processed s → Processed (s.completeAll h).1
  /-- A set is renamed by a table. -/
  | remap {s : TransformSet} {t : RenameTable} :
      t.Writable → Processed s → Processed (s.remap t.renamer).1

/-- Whatever comes of processing can be written. -/
theorem Processed.writable (hs : Processed s) : s.Writable := by
  induction hs with
  | read hread => exact .of_read hread
  | merge _ _ ihs iht => exact ihs.merge iht
  | complete hh hc _ ih => exact ih.completeFrom (List.forall_mem_singleton.2 hc) hh
  | completeAll hh _ ih =>
    refine ih.completeFrom (fun c hc => hh c (Roster.mem_toList.2 ?_)) hh
    exact Hierarchy.knows_of_mem_filterMap hc
  | remap ht _ ih => exact ih.remap ht

/-- Whatever comes of processing is read back from its text, but for the classes that
    nothing is asked of. -/
theorem processed_survives (hs : Processed s) (settings : Settings) :
    ∃ t, (parse {} (write settings s)).result = .ok t ∧ (t == s.trim) = true :=
  hs.writable.parse_write settings

/-- What is asked of the top of the diamond. -/
def topText : String := "protected a.Top run()V\r\npublic a/Top put([La/Right$In;I)V"

/-- What is asked of a class that is nested in the right of the diamond. -/
def nestedText : String := "+f a/Right$In x # a field"

/-- The set that `topText` says. -/
def topSet : TransformSet :=
  ((∅ : TransformSet).join "a/Top" (.method Hierarchy.run) ⟨.toProtected, .keep⟩).join
    "a/Top" (.method ⟨"put", "([La/Right$In;I)V"⟩) ⟨.toPublic, .keep⟩

/-- The set that `nestedText` says. -/
def nestedSet : TransformSet :=
  (∅ : TransformSet).join "a/Right$In" (.field "x") ⟨.keep, .add⟩

/-- The bottom of the diamond completed for both. -/
def completedSet : TransformSet :=
  ((topSet.merge nestedSet).complete Hierarchy.diamond
    (Hierarchy.runner "a/Bottom" ["a/Left", "a/Right"])).1

/-- New names for the right of the diamond, the field and the method of the bottom. -/
def movedNames : List Rename :=
  [.ofClass "a/Right" "b/R", .ofField "a/Right$In" "x" "y", .ofMethod "a/Bottom" Hierarchy.run "go"]

/-- The set under the new names. -/
def movedSet : TransformSet :=
  (completedSet.remap ((∅ : RenameTable).addAll movedNames).renamer).1

/-- The renamed set is read back from a text in which classes are new, nested classes
    follow theirs, and descriptors have new names. -/
theorem moved_survives :
    Processed movedSet ∧
      write {} movedSet = "protected a/Bottom go()V\nprotected a/Left run()V\n" ++
        "public a/Top put([Lb/R$In;I)V\nprotected a/Top run()V\nprotected b/R run()V\n" ++
        "+f b/R$In y\n" ∧
      ∃ t, (parse {} (write {} movedSet)).result = .ok t ∧ (t == movedSet.trim) = true := by
  have htop : Processed topSet :=
    .read (Reading.result_eq_ok (r := parse {} topText) (by decide +kernel))
  have hnested : Processed nestedSet :=
    .read (Reading.result_eq_ok (r := parse {} nestedText) (by decide +kernel))
  have hcompleted : Processed completedSet := .complete (by decide) (by decide) (htop.merge hnested)
  have hmoved : Processed movedSet :=
    .remap (RenameTable.Writable.empty.addAll (by decide)) hcompleted
  exact ⟨hmoved, by decide +kernel, processed_survives hmoved {}⟩

end TransformSet

end Openness
