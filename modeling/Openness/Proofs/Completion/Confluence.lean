import Openness.Proofs.Completion.Joins

/-!
# Completion is confluent

The classes that are due, and with them what completion does, depend on which
classes are to be completed and not on how often or in which order they are
called for (`TransformSet.completeFrom_congr`). This holds from any set, whatever
classes are complete in it. So calls for the same names end in the same set, and
completing all classes leaves nothing to complete
(`TransformSet.complete_confluent`).
-/

namespace Openness

namespace TransformSet

variable {h : Hierarchy} {s : TransformSet} {roots roots' : List ClassHeader}

/-- Completing the same classes in any order and number ends in the same set. -/
theorem completeFrom_congr (acyclic : h.Acyclic) (hroots : ∀ r ∈ roots, h.Knows r)
    (same : ∀ r, r ∈ roots ↔ r ∈ roots') :
    (s.completeFrom h roots).1 = (s.completeFrom h roots').1 := by
  have hroots' : ∀ r ∈ roots', h.Knows r := fun r hr => hroots r ((same r).2 hr)
  refine Completed.unique acyclic hroots (fun c => ⟨fun hc => ?_, fun hc => ?_⟩)
    (Completed.completeFrom acyclic hroots s) (Completed.completeFrom acyclic hroots' s)
  · exact hc.mono fun r hr hs => .root ((same r).1 hr) hs
  · exact hc.mono fun r hr hs => .root ((same r).2 hr) hs

/-- Complete classes leave nothing to complete. -/
theorem completeFrom_of_isComplete (hroots : ∀ r ∈ roots, s.isComplete r.name = true) :
    s.completeFrom h roots = (s, []) := by
  induction roots with
  | nil => rfl
  | cons r roots ih =>
    obtain ⟨hr, hrest⟩ := List.forall_mem_cons.1 hroots
    rw [completeFrom_cons, complete_of_isComplete hr, ih hrest]
    rfl

/-- After completing all classes, those that the hierarchy knows are complete. -/
theorem isComplete_completeAll (acyclic : h.Acyclic) (s : TransformSet) {r : ClassHeader}
    (hr : r ∈ (s.completeAll h).1.classes.names.filterMap h.find?) :
    (s.completeAll h).1.isComplete r.name = true := by
  have ht : Completed h s (s.classes.names.filterMap h.find?) (s.completeAll h).1 :=
    Completed.completeFrom acyclic (fun _ => Hierarchy.knows_of_mem_filterMap) s
  obtain ⟨hheld, hr⟩ := Hierarchy.mem_filterMap_iff.1 hr
  obtain hn | ⟨c, hc, e⟩ := ht.contains_iff.1 (Roster.mem_names.1 hheld)
  · -- The class was held before, so that it was one of those to complete.
    have hroot := Hierarchy.mem_filterMap_iff.2 ⟨Roster.mem_names.2 hn, hr⟩
    cases hs : s.isComplete r.name with
    | true => exact ht.isComplete_mono hs
    | false => exact ht.isComplete_of_due (.root hroot hs)
  · exact e ▸ ht.isComplete_of_due hc

/-- In an acyclic hierarchy, calls for the same names end in the same set. Completing
    all classes is such a sequence of calls, for the names held in any order, and
    leaves nothing to complete. -/
theorem complete_confluent (acyclic : h.Acyclic) (s : TransformSet) :
    (∀ ns ns' : List String, (∀ n, n ∈ ns ↔ n ∈ ns') →
      (completeEach h ns s).1 = (completeEach h ns' s).1) ∧
    (∀ ns : List String, (∀ n, n ∈ ns ↔ s.contains n = true ∧ h.contains n = true) →
      (s.completeAll h).1 = (completeEach h ns s).1) ∧
    (s.completeAll h).1.completeAll h = ((s.completeAll h).1, []) := by
  refine ⟨fun ns ns' same => ?_, fun ns same => ?_, ?_⟩
  · rw [completeEach_eq, completeEach_eq]
    refine completeFrom_congr acyclic (fun _ => Hierarchy.knows_of_mem_filterMap) fun r => ?_
    simp only [List.mem_filterMap, same]
  · rw [completeEach_eq]
    refine completeFrom_congr acyclic (fun _ => Hierarchy.knows_of_mem_filterMap) fun r => ?_
    simp only [List.mem_filterMap, same, Roster.mem_names]
    refine exists_congr fun n => and_congr_left fun hr => ?_
    have : h.contains n = true := by rw [Roster.contains, hr]; rfl
    simp only [this, and_true]
    rfl
  · exact completeFrom_of_isComplete fun r => isComplete_completeAll acyclic s

open Hierarchy in
/-- With the left of the diamond complete, the calls may still come in any order. -/
theorem diamond_confluent :
    diamond.Acyclic ∧
      (completeEach diamond ["a/Bottom", "a/Top", "a/Bottom"] (topAndRight.mark "a/Left" true)).1 =
        (completeEach diamond ["a/Top", "a/Bottom"] (topAndRight.mark "a/Left" true)).1 ∧
      (topAndRight.completeAll diamond).1.completeAll diamond =
        ((topAndRight.completeAll diamond).1, []) :=
  ⟨diamond_acyclic,
    (complete_confluent diamond_acyclic (topAndRight.mark "a/Left" true)).1 _ _ (by simp),
    (complete_confluent diamond_acyclic topAndRight).2.2⟩

end TransformSet

end Openness
