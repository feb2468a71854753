import Openness.Event
import Openness.Hierarchy
import Openness.TransformSet

/-!
# Completion

An overriding method must be at least as open as what it overrides. Completing a
class makes it so: the class inherits the entries of every known parent for the
methods that it overrides, after the parents have inherited from theirs.

Completion has two parts. The first is a walk up the hierarchy that lists the
classes to complete, parents first (`Hierarchy.completionOrder`); it leaves out
classes that are complete and what lies above them. The second goes through that
list, and each class inherits once (`TransformSet.inheritAll`).

The walk is bounded by the size of the hierarchy. In a hierarchy without cycles
no way up is longer, so the bound is never met there.

* `TransformSet.find?_inherit`: only the class that inherits changes, and of that
  only its methods and its mark.
-/

namespace Openness

namespace Hierarchy

/-- Adds a class to the order, after its ancestors that are still missing. A
    class that is settled, or in the order already, adds nothing. The number
    bounds the way up. -/
def ascend (h : Hierarchy) (settled : String → Bool) :
    Nat → List ClassHeader → ClassHeader → List ClassHeader
  | 0, order, _ => order
  | bound + 1, order, c =>
    if settled c.name || order.any (·.name = c.name) then order
    else (h.parents c).foldl (h.ascend settled bound) order ++ [c]

/-- The classes to complete for the sake of some classes, parents first. -/
def completionOrder (h : Hierarchy) (settled : String → Bool) (roots : List ClassHeader) :
    List ClassHeader :=
  roots.foldl (h.ascend settled (h.size + 1)) []

end Hierarchy

namespace TransformSet

/-- What a class inherits: the method entries of each known parent that the
    class overrides. -/
def inherited (s : TransformSet) (h : Hierarchy) (c : ClassHeader) : List (Signature × Transform) :=
  (h.parents c).flatMap fun p =>
    (s.entry p.name).transforms.methods.toList.filter fun e => c.overrides e.1 p

/-- A class inherits, and is marked as complete. -/
def inherit (s : TransformSet) (h : Hierarchy) (c : ClassHeader) : TransformSet :=
  let add (t : ClassTransforms) : ClassTransforms :=
    { t with methods := t.methods.joinAll (s.inherited h c) }
  (s.modify c.name add).mark c.name true

/-- Only the class that inherits changes, and of that only its methods. -/
theorem find?_inherit (s : TransformSet) (h : Hierarchy) (c : ClassHeader) (n : String) :
    (s.inherit h c).find? n =
      if n = c.name then
        some ⟨c.name, { (s.entry c.name).transforms with
          methods := (s.entry c.name).transforms.methods.joinAll (s.inherited h c) }, true⟩
      else s.find? n := by
  rw [inherit, find?_mark]
  split
  · rw [entry, find?_modify, if_pos rfl]
    simp
  · rename_i hn
    rw [find?_modify, if_neg hn]

/-- The classes of a list inherit in turn, and each reports how much. -/
def inheritAll (h : Hierarchy) : List ClassHeader → TransformSet → TransformSet × List Event
  | [], s => (s, [])
  | c :: cs, s =>
    let (t, events) := inheritAll h cs (s.inherit h c)
    (t, .completedClass c.name (s.inherited h c).length :: events)

/-- Completes some classes and all their known ancestors. -/
def completeFrom (s : TransformSet) (h : Hierarchy) (roots : List ClassHeader) :
    TransformSet × List Event :=
  inheritAll h (h.completionOrder s.isComplete roots) s

/-- Completes a class and all its known ancestors. -/
def complete (s : TransformSet) (h : Hierarchy) (c : ClassHeader) : TransformSet × List Event :=
  s.completeFrom h [c]

/-- Completes every class of the set that the hierarchy knows. -/
def completeAll (s : TransformSet) (h : Hierarchy) : TransformSet × List Event :=
  s.completeFrom h (s.classes.names.filterMap h.find?)

end TransformSet

end Openness
