import Openness.Proofs.Completion.Joins
import Openness.Proofs.Merge

/-!
# Completing merged sets

Two sets may be merged first and completed then, or the other way round, if the same
classes are complete in both: what goes down an override path is joined on the way, and
joining two sets is joining what goes down in each of them
(`Hierarchy.mem_upperBounds_heritage_merge_iff`). So completion takes merges to merges
(`TransformSet.completeFrom_merge`), and this to the letter, with the marks and with the
classes that nothing is asked of.

The same classes are to be complete because a complete class hides what is above it. Where
no class is complete, that is given (`TransformSet.complete_merge`).
-/

namespace Openness

namespace Hierarchy

variable {h : Hierarchy} {s t : TransformSet} {m : Signature} {c : ClassHeader} {u : Transform}

theorem mem_upperBounds_heritage_iff :
    u ∈ upperBounds (h.heritage s m c) ↔
      ∀ d, Relation.ReflTransGen (h.Passes s.isComplete m) c d → s.get d.name (.method m) ≤ u := by
  constructor
  · exact fun hu d hd => hu ⟨d, hd, rfl⟩
  · rintro hu _ ⟨d, hd, rfl⟩
    exact hu d hd

/-- What is above all that two merged sets pass on is above what each of them does. -/
theorem mem_upperBounds_heritage_merge_iff (same : s.isComplete = t.isComplete) :
    u ∈ upperBounds (h.heritage (s.merge t) m c) ↔
      u ∈ upperBounds (h.heritage s m c) ∧ u ∈ upperBounds (h.heritage t m c) := by
  have hmarks : (s.merge t).isComplete = s.isComplete :=
    funext fun n => TransformSet.isComplete_merge s t n
  simp only [mem_upperBounds_heritage_iff, hmarks, ← same, TransformSet.get_merge,
    Transform.max_le_iff, imp_and, forall_and]

end Hierarchy

namespace TransformSet

variable {h : Hierarchy} {s t s' t' m : TransformSet} {roots : List ClassHeader} {c : ClassHeader}

namespace Completed

/-- What comes of two merged sets is what comes of each of them, merged. -/
theorem merge (acyclic : h.Acyclic) (same : s.isComplete = t.isComplete)
    (hs : Completed h s roots s') (ht : Completed h t roots t')
    (hm : Completed h (s.merge t) roots m) : m = s'.merge t' := by
  have hmarks : (s.merge t).isComplete = s.isComplete := funext fun n => isComplete_merge s t n
  -- The same classes are due in all three sets, and the others are as before in all three.
  have due_or (n : String) : (∃ c, h.Due s.isComplete roots c ∧ c.name = n) ∨
      m.find? n = (s.merge t).find? n ∧ s'.find? n = s.find? n ∧ t'.find? n = t.find? n := by
    by_cases hn : ∃ c, h.Due s.isComplete roots c ∧ c.name = n
    · exact .inl hn
    · push Not at hn
      exact .inr ⟨hm.other n (hmarks ▸ hn), hs.other n hn, ht.other n (same ▸ hn)⟩
  refine ext_of_le_iff (fun n => ?_) (fun n slot u => ?_) fun n => ?_
  · rw [contains_merge_iff]
    obtain ⟨c, hc, rfl⟩ | ⟨hnm, hns, hnt⟩ := due_or n
    · exact iff_of_true (hm.contains_of_due (hmarks ▸ hc)) (.inl (hs.contains_of_due hc))
    · rw [contains_of_find?_eq hnm, contains_of_find?_eq hns, contains_of_find?_eq hnt,
        contains_merge_iff]
  · rw [get_merge, Transform.max_le_iff]
    obtain ⟨c, hc, rfl⟩ | ⟨hnm, hns, hnt⟩ := due_or n
    · cases slot with
      | method sig =>
        rw [isLUB_le_iff (hm.isLUB acyclic (hmarks ▸ hc) sig),
          isLUB_le_iff (hs.isLUB acyclic hc sig), isLUB_le_iff (ht.isLUB acyclic (same ▸ hc) sig)]
        exact Hierarchy.mem_upperBounds_heritage_merge_iff same
      | _ =>
        rw [hm.get_of_not_method _ (by simp), hs.get_of_not_method _ (by simp),
          ht.get_of_not_method _ (by simp), get_merge, Transform.max_le_iff]
    · rw [get_of_find?_eq hnm, get_of_find?_eq hns, get_of_find?_eq hnt, get_merge,
        Transform.max_le_iff]
  · rw [isComplete_merge]
    obtain ⟨c, hc, rfl⟩ | ⟨hnm, hns, -⟩ := due_or n
    · rw [hm.isComplete_of_due (hmarks ▸ hc), hs.isComplete_of_due hc]
    · rw [isComplete_of_find?_eq hnm, hmarks, isComplete_of_find?_eq hns]

end Completed

/-- Completion takes merges to merges where the same classes are complete. -/
theorem completeFrom_merge (acyclic : h.Acyclic) (hroots : ∀ r ∈ roots, h.Knows r)
    (same : s.isComplete = t.isComplete) :
    ((s.merge t).completeFrom h roots).1 =
      (s.completeFrom h roots).1.merge (t.completeFrom h roots).1 :=
  (Completed.completeFrom acyclic hroots s).merge acyclic same
    (Completed.completeFrom acyclic hroots t) (Completed.completeFrom acyclic hroots (s.merge t))

/-- In an acyclic hierarchy, completing a class of two merged sets without complete classes
    ends in the same set as completing the class in each of them and merging then: with
    the same classes, transforms and marks. -/
theorem complete_merge (acyclic : h.Acyclic) (hc : h.Knows c)
    (hs : ∀ n, s.isComplete n = false) (ht : ∀ n, t.isComplete n = false) :
    ((s.merge t).complete h c).1 = (s.complete h c).1.merge (t.complete h c).1 := by
  have same : s.isComplete = t.isComplete := funext fun n => (hs n).trans (ht n).symm
  exact completeFrom_merge acyclic (by simpa using hc) same

/-- Something is asked of `run` on the left of the diamond, and of a class that is not part
    of it. -/
def leftAndOther : TransformSet :=
  ((∅ : TransformSet).join "a/Left" (.method Hierarchy.run) ⟨.toPublic, .keep⟩).join
    "a/Other" .own ⟨.keep, .remove⟩

open Hierarchy in
/-- The bottom of the diamond gets what two sets ask of the top, the left and the right. -/
theorem bottom_merged :
    diamond.Acyclic ∧ diamond.Knows (runner "a/Bottom" ["a/Left", "a/Right"]) ∧
      (∀ n, topAndRight.isComplete n = false) ∧ (∀ n, leftAndOther.isComplete n = false) ∧
      ((topAndRight.merge leftAndOther).complete diamond
          (runner "a/Bottom" ["a/Left", "a/Right"])).1 =
        (topAndRight.complete diamond (runner "a/Bottom" ["a/Left", "a/Right"])).1.merge
          (leftAndOther.complete diamond (runner "a/Bottom" ["a/Left", "a/Right"])).1 ∧
      ((topAndRight.merge leftAndOther).complete diamond
          (runner "a/Bottom" ["a/Left", "a/Right"])).1.get "a/Bottom" (.method run) =
        ⟨.toPublic, .add⟩ := by
  have knows : diamond.Knows (runner "a/Bottom" ["a/Left", "a/Right"]) := by decide
  have hs : ∀ n, topAndRight.isComplete n = false := isComplete_eq_false (by decide)
  have ht : ∀ n, leftAndOther.isComplete n = false := isComplete_eq_false (by decide)
  exact ⟨diamond_acyclic, knows, hs, ht, complete_merge diamond_acyclic knows hs ht, by decide⟩

end TransformSet

end Openness
