import Openness.Event
import Openness.Renamer
import Openness.TransformSet

/-!
# Renaming a set

A set under new names (`TransformSet.remap`). Every class goes to the class of
its new name and every member to its new name there. Where several meet they are
joined, so nothing is lost. The new set has inherited nothing.
-/

namespace Openness

namespace Renamer

/-- Where a slot of a class goes. -/
def slotTarget (r : Renamer) (n : String) : Slot → Slot
  | .field f => .field (r.fieldTarget n f)
  | .method m => .method (r.methodTarget n m)
  | slot => slot

end Renamer

namespace TransformSet

/-- Joins a class under its new names into a set. -/
def absorbRenamed (r : Renamer) (s : TransformSet) (c : ClassEntry) : TransformSet :=
  s.modify (r.classTarget c.name) fun t =>
    c.transforms.entries.foldl (fun t e => t.join (r.slotTarget c.name e.1) e.2) t

/-- The set under new names. -/
def remapped (s : TransformSet) (r : Renamer) : TransformSet :=
  s.classes.toList.foldl (absorbRenamed r) ∅

/-- The number of classes for which a renamer has an answer. -/
def renamedClasses (s : TransformSet) (r : Renamer) : Nat :=
  (s.classes.names.filter fun n => (r.newClass n).isSome).length

/-- The set under new names, with a report. -/
def remap (s : TransformSet) (r : Renamer) : TransformSet × List Event :=
  (s.remapped r, [.remapped s.classes.size (s.renamedClasses r)])

end TransformSet

end Openness
