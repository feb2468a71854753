import Openness.Proofs.Merge
import Openness.Proofs.Remap.Preimages

/-!
# Renaming merged sets

Two sets may be merged first and go under new names then, or the other way round. The names
need not stay apart: what meets under the new names is joined, whether it comes from one of
the sets or from both, and a join does not mind how its members are grouped
(`TransformSet.remap_merge`).

Both sides are known by what lies above their slots. Above a slot under new names is what is
above all slots that go there (`TransformSet.get_remapped_le_iff_get`), and above a slot of
two merged sets is what is above that of both (`TransformSet.get_merge`).
-/

namespace Openness

namespace TransformSet

variable {s t : TransformSet} {r : Renamer} {n : String} {slot : Slot} {u : Transform}

/-- The classes of two sets go to the same places whether they are merged before or
    afterwards. -/
theorem contains_remapped_merge_iff :
    ((s.merge t).remapped r).contains n = true ↔
      (s.remapped r).contains n = true ∨ (t.remapped r).contains n = true := by
  simp only [contains_remapped_iff_contains, contains_merge_iff, or_and_right, exists_or]

/-- Under new names, a slot of two merged sets is below what the slots of both are. -/
theorem get_remapped_merge_le_iff :
    ((s.merge t).remapped r).get n slot ≤ u ↔
      (s.remapped r).get n slot ≤ u ∧ (t.remapped r).get n slot ≤ u := by
  simp only [get_remapped_le_iff_get, get_merge, Transform.max_le_iff, imp_and, forall_and]

/-- Two merged sets under new names are the two sets under new names, merged: with the same
    classes, transforms and marks. -/
theorem remap_merge (s t : TransformSet) (r : Renamer) :
    ((s.merge t).remap r).1 = (s.remap r).1.merge (t.remap r).1 := by
  show (s.merge t).remapped r = (s.remapped r).merge (t.remapped r)
  refine ext_of_le_iff (fun n => ?_) (fun n slot u => ?_) fun n => ?_
  · rw [contains_remapped_merge_iff, contains_merge_iff]
  · rw [get_remapped_merge_le_iff, get_merge, Transform.max_le_iff]
  · -- What is under new names has no marks, and merging takes those of the first set.
    rw [isComplete_merge, isComplete_remapped, isComplete_remapped]

end TransformSet

end Openness
