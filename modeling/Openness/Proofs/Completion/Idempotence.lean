import Openness.Proofs.Completion.Joins
import Openness.Proofs.Merge

/-!
# Completing without marks

A complete class is left alone, so completing twice does nothing the second time. That is not
all: the entries that a class inherits would do nothing the second time either. To see it, a
completed set is merged into a new one. That keeps what the set holds and loses its marks
(`TransformSet.empty_merge_beq`), so that everything is done again.

Every class that was due has joined what its parents have in the end, and joining the same
entries again changes nothing (`Slots.joinAll_joinAll`). So the completed set itself meets the
description of what becomes of its copy without marks (`TransformSet.Completed.of_beq`), and
nothing else does. Completing all classes of the copy concerns classes that the first
completion created, but these were due then, too, as ancestors of others
(`TransformSet.Completed.due_names_iff`).
-/

namespace Openness

namespace TransformSet

variable {h : Hierarchy} {s t u : TransformSet} {roots : List ClassHeader} {c : ClassHeader}

/-- A set without classes takes over the contents of what is merged into it. -/
theorem empty_merge_beq (t : TransformSet) : ((∅ : TransformSet).merge t == t) = true :=
  beq_of_le_iff fun u => by rw [merge_le_iff, and_iff_right (empty_le u)]

/-- A set without classes takes over no mark of what is merged into it. -/
theorem isComplete_empty_merge (t : TransformSet) (n : String) :
    ((∅ : TransformSet).merge t).isComplete n = false :=
  isComplete_merge ..

namespace Completed

/-- A set without complete classes that was completed comes of any equal set without complete
    classes, too. -/
theorem of_beq (ht : Completed h s roots t) (hs : ∀ n, s.isComplete n = false)
    (hu : ∀ n, u.isComplete n = false) (e : (u == t) = true) : Completed h u roots t := by
  have same : u.isComplete = s.isComplete := funext fun n => (hu n).trans (hs n).symm
  constructor
  · -- The class has in the copy what it has in the end, and gets the same entries again.
    intro c hc
    rw [same] at hc
    have hcopy : (u.entry c.name).transforms = { (s.entry c.name).transforms with
        methods := (s.entry c.name).transforms.methods.joinAll (t.inherited h c) } := by
      rw [entry_transforms, beq_iff.1 e, ht.due c hc]
      rfl
    rw [hcopy, Slots.joinAll_joinAll]
    exact ht.due c hc
  · -- The class was not complete before, so that it has no mark to lose.
    intro n hn
    rw [same] at hn
    refine (find?_eq_of_beq e ?_).symm
    rw [hu n, isComplete_of_find?_eq (ht.other n hn), hs n]

/-- After completing all classes of a set, the same classes are due for those of an equal set
    without complete classes. -/
theorem due_names_iff (ht : Completed h s (s.classes.names.filterMap h.find?) t)
    (hs : ∀ n, s.isComplete n = false) (hu : ∀ n, u.isComplete n = false)
    (e : (u == t) = true) :
    h.Due u.isComplete (u.classes.names.filterMap h.find?) c ↔
      h.Due u.isComplete (s.classes.names.filterMap h.find?) c := by
  have same : u.isComplete = s.isComplete := funext fun n => (hu n).trans (hs n).symm
  have held {n : String} : n ∈ u.classes.names ↔ n ∈ s.classes.names ∨
      ∃ c, h.Due u.isComplete (s.classes.names.filterMap h.find?) c ∧ c.name = n := by
    rw [same, Roster.mem_names, Roster.mem_names]
    show u.contains n = true ↔ s.contains n = true ∨ _
    rw [(beq_iff_get.1 e).1 n, ht.contains_iff]
  constructor
  · -- A class that is new was due before.
    refine Hierarchy.Due.mono fun r hr _ => ?_
    obtain ⟨hr, hknows⟩ := Hierarchy.mem_filterMap_iff.1 hr
    obtain hr | ⟨c, hc, hname⟩ := held.1 hr
    · exact .root (Hierarchy.mem_filterMap_iff.2 ⟨hr, hknows⟩) (hu _)
    · exact (hc.knows fun _ => Hierarchy.knows_of_mem_filterMap).eq hknows hname ▸ hc
  · refine Hierarchy.Due.mono fun r hr _ => ?_
    obtain ⟨hr, hknows⟩ := Hierarchy.mem_filterMap_iff.1 hr
    exact .root (Hierarchy.mem_filterMap_iff.2 ⟨held.2 (.inl hr), hknows⟩) (hu _)

end Completed

/-- In an acyclic hierarchy, completing a class or all classes of a set without complete
    classes leaves nothing to add: merged into a new set, which keeps all but the marks, and
    completed again, what was completed becomes the same set again, with the same classes
    complete. -/
theorem complete_again (acyclic : h.Acyclic) (fresh : ∀ n, s.isComplete n = false) :
    (∀ t : TransformSet, ((∅ : TransformSet).merge t == t) = true ∧
      ∀ n, ((∅ : TransformSet).merge t).isComplete n = false) ∧
    (∀ c, h.Knows c →
      (((∅ : TransformSet).merge (s.complete h c).1).complete h c).1 = (s.complete h c).1) ∧
    (((∅ : TransformSet).merge (s.completeAll h).1).completeAll h).1 = (s.completeAll h).1 := by
  refine ⟨fun t => ⟨empty_merge_beq t, isComplete_empty_merge t⟩, fun c hc => ?_, ?_⟩
  · have ht := (Completed.complete acyclic hc s).of_beq fresh (isComplete_empty_merge _)
      (empty_merge_beq _)
    exact (Completed.complete acyclic hc _).unique acyclic (List.forall_mem_singleton.2 hc)
      (fun _ => Iff.rfl) ht
  · have knows {ns : List String} : ∀ r ∈ ns.filterMap h.find?, h.Knows r :=
      fun _ => Hierarchy.knows_of_mem_filterMap
    have ht : Completed h s (s.classes.names.filterMap h.find?) (s.completeAll h).1 :=
      .completeFrom acyclic knows s
    have hcopy := empty_merge_beq (s.completeAll h).1
    exact (Completed.completeFrom acyclic knows _).unique acyclic knows
      (fun _ => ht.due_names_iff fresh (isComplete_empty_merge _) hcopy)
      (ht.of_beq fresh (isComplete_empty_merge _) hcopy)

open Hierarchy in
/-- The bottom of the diamond loses its mark and its parents theirs, and it is completed with
    the same entry. -/
theorem bottom_again :
    diamond.Acyclic ∧ (∀ n, topAndRight.isComplete n = false) ∧
      diamond.Knows (runner "a/Bottom" ["a/Left", "a/Right"]) ∧
      (((∅ : TransformSet).merge (topAndRight.complete diamond
          (runner "a/Bottom" ["a/Left", "a/Right"])).1).complete diamond
        (runner "a/Bottom" ["a/Left", "a/Right"])).1 =
        (topAndRight.complete diamond (runner "a/Bottom" ["a/Left", "a/Right"])).1 ∧
      (((∅ : TransformSet).merge (topAndRight.completeAll diamond).1).completeAll diamond).1 =
        (topAndRight.completeAll diamond).1 ∧
      (topAndRight.complete diamond (runner "a/Bottom" ["a/Left", "a/Right"])).1.get
        "a/Bottom" (.method run) = ⟨.toProtected, .add⟩ := by
  have fresh : ∀ n, topAndRight.isComplete n = false := isComplete_eq_false (by decide)
  have knows : diamond.Knows (runner "a/Bottom" ["a/Left", "a/Right"]) := by decide
  exact ⟨diamond_acyclic, fresh, knows, (complete_again diamond_acyclic fresh).2.1 _ knows,
    (complete_again diamond_acyclic fresh).2.2, by decide⟩

end TransformSet

end Openness
