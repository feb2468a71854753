import Openness.ClassTransforms
import Openness.Roster

/-!
# Sets of transforms

A set of transforms holds any number of classes by name (`TransformSet`), each
with its transforms and with a mark that says whether it has inherited from its
parents (`ClassEntry.complete`). A class may be held although nothing is asked
of it. Sets are compared without the marks: `contents` is what counts.

* `get_join`: a change is seen in its own slot of its own class only;
* `find?_touch`, `find?_modify`: what happens to the entry of a class;
* `beq_iff`: equal sets hold the same classes with the same transforms.
-/

namespace Openness

/-- A class of a set. -/
structure ClassEntry where
  /-- The internal name of the class. -/
  name : String
  /-- What is asked of it. -/
  transforms : ClassTransforms := ∅
  /-- Whether it has inherited from its parents. -/
  complete : Bool := false
  deriving DecidableEq, Inhabited

instance : Named ClassEntry := ⟨ClassEntry.name⟩

/-- How a class is written in a message. -/
def ClassEntry.display (c : ClassEntry) : String := c.transforms.display c.name

/-- Transforms for any number of classes. -/
structure TransformSet where
  /-- The classes. -/
  classes : Roster ClassEntry := ∅
  deriving DecidableEq, Inhabited

namespace TransformSet

instance : EmptyCollection TransformSet := ⟨{}⟩

/-- The class of a name. -/
def find? (s : TransformSet) (n : String) : Option ClassEntry := s.classes.find? n

/-- Whether the set holds a class. -/
def contains (s : TransformSet) (n : String) : Bool := s.classes.contains n

/-- The class of a name, or a new one. -/
def entry (s : TransformSet) (n : String) : ClassEntry := (s.find? n).getD { name := n }

/-- What is asked in a slot of a class. -/
def get (s : TransformSet) (n : String) (slot : Slot) : Transform :=
  (s.entry n).transforms.get slot

/-- What holds for a slot of a class, given what is asked of all members. -/
def lookup (s : TransformSet) (n : String) (slot : Slot) : Transform :=
  (s.entry n).transforms.lookup slot

/-- Whether a class has inherited from its parents. -/
def isComplete (s : TransformSet) (n : String) : Bool := (s.entry n).complete

/-- Holds a class, in place of the one with its name. -/
def put (s : TransformSet) (c : ClassEntry) : TransformSet := ⟨s.classes.put c⟩

/-- Holds a class, as a new one if need be. -/
def touch (s : TransformSet) (n : String) : TransformSet := s.put (s.entry n)

/-- Changes what is asked of a class, which is new if need be. -/
def modify (s : TransformSet) (n : String) (f : ClassTransforms → ClassTransforms) :
    TransformSet :=
  s.put { s.entry n with transforms := f (s.entry n).transforms }

/-- Marks a class as one that has inherited, or as one that has not. -/
def mark (s : TransformSet) (n : String) (complete : Bool) : TransformSet :=
  s.put { s.entry n with complete }

/-- Lets go of a class. -/
def remove (s : TransformSet) (n : String) : TransformSet := ⟨s.classes.remove n⟩

/-- Joins a transform into a slot of a class, which is new if need be. -/
def join (s : TransformSet) (n : String) (slot : Slot) (t : Transform) : TransformSet :=
  s.modify n (·.join slot t)

/-- Joins a class into the class of its name. -/
def absorb (s : TransformSet) (c : ClassEntry) : TransformSet :=
  s.modify c.name (·.union c.transforms)

/-- Joins every class of another set into the class of its name. The marks of
    the other set do not count. -/
def merge (s t : TransformSet) : TransformSet := t.classes.toList.foldl absorb s

/-- The classes that something is asked of, without the others. -/
def trim (s : TransformSet) : TransformSet := ⟨s.classes.filter fun c => !c.transforms.isEmpty⟩

/-- What is asked of each class, without the marks. -/
def contents (s : TransformSet) : SortedMap String ClassTransforms :=
  s.classes.byName.mapValues ClassEntry.transforms

/-- Sets are compared by their contents. -/
instance : BEq TransformSet := ⟨fun s t => s.contents = t.contents⟩

instance : Hashable TransformSet := ⟨fun s => hash s.contents.toList⟩

/-! ## Look-up -/

@[simp] theorem find?_empty (n : String) : (∅ : TransformSet).find? n = none := rfl

@[simp] theorem entry_name (s : TransformSet) (n : String) : (s.entry n).name = n := by
  rw [entry]
  cases h : s.find? n with
  | none => rfl
  | some c => exact Roster.name_of_find? h

/-- A class is held under its own name. -/
theorem name_of_find? {s : TransformSet} {n : String} {c : ClassEntry} (h : s.find? n = some c) :
    c.name = n :=
  Roster.name_of_find? h

theorem find?_put (s : TransformSet) (c : ClassEntry) (m : String) :
    (s.put c).find? m = if m = c.name then some c else s.find? m :=
  Roster.find?_put ..

theorem find?_touch (s : TransformSet) (n m : String) :
    (s.touch n).find? m = if m = n then some (s.entry n) else s.find? m := by
  rw [touch, find?_put, entry_name]

theorem find?_modify (s : TransformSet) (n m : String) (f : ClassTransforms → ClassTransforms) :
    (s.modify n f).find? m =
      if m = n then some { s.entry n with transforms := f (s.entry n).transforms }
      else s.find? m := by
  simp only [modify, find?_put, entry_name]

theorem find?_mark (s : TransformSet) (n m : String) (b : Bool) :
    (s.mark n b).find? m = if m = n then some { s.entry n with complete := b } else s.find? m := by
  simp only [mark, find?_put, entry_name]

theorem find?_remove (s : TransformSet) (n m : String) :
    (s.remove n).find? m = if m = n then none else s.find? m :=
  Roster.find?_remove ..

theorem find?_trim (s : TransformSet) (n : String) :
    s.trim.find? n = (s.find? n).filter fun c => !c.transforms.isEmpty :=
  Roster.find?_filter ..

theorem get_modify (s : TransformSet) (n m : String) (f : ClassTransforms → ClassTransforms)
    (slot : Slot) :
    (s.modify n f).get m slot =
      if m = n then (f (s.entry n).transforms).get slot else s.get m slot := by
  rw [get, entry, find?_modify]
  split
  · rfl
  · rfl

/-- A class that changes is held from then on. -/
theorem contains_modify_iff {s : TransformSet} {n m : String}
    {f : ClassTransforms → ClassTransforms} :
    (s.modify n f).contains m = true ↔ s.contains m = true ∨ n = m := by
  show ((s.modify n f).find? m).isSome = true ↔ (s.find? m).isSome = true ∨ _
  rw [find?_modify]
  by_cases h : m = n
  · rw [if_pos h]
    exact iff_of_true rfl (.inr h.symm)
  · rw [if_neg h]
    exact ⟨.inl, fun hn => hn.resolve_right (Ne.symm h)⟩

/-- A change of what is asked leaves the marks. -/
theorem isComplete_modify (s : TransformSet) (n m : String)
    (f : ClassTransforms → ClassTransforms) :
    (s.modify n f).isComplete m = s.isComplete m := by
  rw [isComplete, entry, find?_modify]
  split
  · rename_i h
    rw [h]
    rfl
  · rfl

/-- A change is seen in its own slot of its own class only. -/
theorem get_join (s : TransformSet) (n m : String) (slot slot' : Slot) (t : Transform) :
    (s.join n slot t).get m slot' =
      if m = n ∧ slot' = slot then max (s.get n slot) t else s.get m slot' := by
  rw [join, get_modify, ClassTransforms.get_join]
  by_cases hm : m = n
  · subst hm
    simp only [true_and, if_true]
    rfl
  · simp [hm]

theorem find?_contents (s : TransformSet) (n : String) :
    s.contents.find? n = (s.find? n).map ClassEntry.transforms :=
  SortedMap.find?_mapValues ..

/-- Equal sets hold the same classes with the same transforms. -/
theorem beq_iff {s t : TransformSet} :
    (s == t) = true ↔
      ∀ n, (s.find? n).map ClassEntry.transforms = (t.find? n).map ClassEntry.transforms := by
  refine decide_eq_true_iff.trans ⟨fun h n => ?_, fun h => SortedMap.ext_find? fun n => ?_⟩
  · rw [← find?_contents, h, find?_contents]
  · rw [find?_contents, h, find?_contents]

end TransformSet

end Openness
