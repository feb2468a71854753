import Openness.Proofs.Format.LineByLine
import Openness.Proofs.Merge

/-!
# Reading into a set

A source is read into a set as a whole or not at all (`readInto_allOrNothing`). What it
says is first made up as a set of its own, which is then merged. That this comes to doing
what the lines say in the set itself, one after the other, is a matter of merging: what
directives make up from nothing, merged into a set, is what they make of the set
(`TransformSet.merge_follow`). Here this is meant to the letter: classes that nothing is
asked of, and marks, are the same as well.
-/

namespace Openness

/-- Doing what directives say in a set is doing it apart and merging what comes of it. -/
theorem TransformSet.merge_follow (s : TransformSet) (ds : List Format.Directive) :
    s.merge (follow ∅ ds) = s.follow ds := by
  refine ext_of_le_iff (fun n => ?_) (fun n slot u => ?_) fun n => ?_
  · have hnone : ¬(∅ : TransformSet).contains n = true := Bool.false_ne_true
    rw [contains_merge_iff, contains_follow_iff, contains_follow_iff, or_iff_right hnone]
  · rw [get_merge, Transform.max_le_iff, get_follow_le_iff, get_follow_le_iff,
      and_iff_right (get_empty_le n slot u)]
  · rw [isComplete_merge, isComplete_follow]

namespace Format

/-- Reading a source into `s` leaves a set and comes to a reading: all that the source says
    is done, or nothing is. -/
structure AllOrNothing (settings : Settings) (bytes : List UInt8) (s : TransformSet)
    (after : TransformSet × Reading) : Prop where
  /-- The answer is that of reading the source by itself, with the same diagnostics. -/
  reading : after.2 = read settings bytes
  /-- It fails exactly if some line ends the reading. -/
  fails_iff : (∃ e, after.2.result = .error e) ↔
    ∃ l ∈ Text.lines bytes, EndsReading settings.malformedLines l
  /-- If it fails, the set is as it was. -/
  nothing : ∀ e, after.2.result = .error e → after.1 = s
  /-- Otherwise what the well-formed lines say was done in the set, line by line. -/
  all : ∀ t, after.2.result = .ok t →
    after.1 = s.follow ((Text.lines bytes).filterMap directive?)

/-- A source is read into a set as a whole or not at all. -/
theorem readInto_allOrNothing (settings : Settings) (bytes : List UInt8) (s : TransformSet) :
    AllOrNothing settings bytes s (readInto settings bytes s) where
  reading := rfl
  fails_iff := readLines_fails_iff
  nothing e h := by
    show (read settings bytes).mergeInto s = s
    rw [Reading.mergeInto, show (read settings bytes).result = .error e from h]
  all t h := by
    show (read settings bytes).mergeInto s = _
    have hread : (read settings bytes).result = .ok t := h
    obtain ⟨-, rfl⟩ := readLines_eq_ok_iff.1 hread
    rw [Reading.mergeInto, hread]
    exact s.merge_follow _

end Format

end Openness
