import Openness.Completion
import Openness.Format.Reader
import Openness.Remap

/-!
# Sessions

What a caller has at hand: sets, and classes that are in no set, since they are new, were
taken out of a set or are copies (`Session`). A caller goes on by operations, one after the
other (`Session.run`). Some change a set or a class, the others add one. A class is known by
its place (`Place`), and it keeps its place until it is removed.

An operation on something that is not there does nothing.
-/

namespace Openness

/-- Where a class is. -/
inductive Place where
  /-- In a set, by its name. -/
  | held (set : Nat) (name : String)
  /-- In no set. -/
  | loose (i : Nat)
  deriving DecidableEq, Repr

/-- Sets, and classes that are in none of them. -/
structure Session where
  /-- The sets. -/
  sets : List TransformSet := []
  /-- The classes that are in no set. -/
  classes : List ClassEntry := []

/-- What a caller may do. -/
inductive Operation where
  /-- A set without classes. -/
  | newSet
  /-- A copy of a set. -/
  | copySet (i : Nat)
  /-- A class of which nothing is asked. -/
  | newClass (name : String)
  /-- A copy of a class. -/
  | copyClass (p : Place)
  /-- Holds a class in a set, as a new one if need be. -/
  | touch (i : Nat) (name : String)
  /-- Takes a class out of a set. -/
  | remove (i : Nat) (name : String)
  /-- Joins a transform into a slot of a class. -/
  | merge (p : Place) (slot : Slot) (t : Transform)
  /-- Puts a transform into a slot of a class, in place of what it holds. -/
  | replace (p : Place) (slot : Slot) (t : Transform)
  /-- Joins the class at the second place into the one at the first. -/
  | mergeClass (p q : Place)
  /-- Merges the second set into the first. -/
  | mergeSet (i j : Nat)
  /-- Completes a class of a set. -/
  | complete (i : Nat) (h : Hierarchy) (c : ClassHeader)
  /-- Completes all classes of a set that the hierarchy knows. -/
  | completeAll (i : Nat) (h : Hierarchy)
  /-- A set under new names. -/
  | remap (i : Nat) (r : Renamer)
  /-- The set that a source of bytes says, if it can be read. -/
  | read (settings : Format.Settings) (bytes : List UInt8)
  /-- Reads a source of bytes into a set. -/
  | readInto (i : Nat) (settings : Format.Settings) (bytes : List UInt8)

/-- The operation takes the class at a place out of its set. -/
def Operation.Removes : Operation → Place → Prop
  | .remove i n, p => p = .held i n
  | _, _ => False

namespace Session

instance : EmptyCollection Session := ⟨{}⟩

/-- The class at a place. -/
def class? (σ : Session) : Place → Option ClassEntry
  | .held i n => σ.sets[i]?.bind (·.find? n)
  | .loose i => σ.classes[i]?

/-- Whether the class at a place has inherited from its parents. -/
def isComplete (σ : Session) (p : Place) : Bool := (σ.class? p).any (·.complete)

/-- Adds a set, if there is one. -/
def addSet (σ : Session) (s : Option TransformSet) : Session :=
  { σ with sets := σ.sets ++ s.toList }

/-- Adds a class, if there is one. -/
def addClass (σ : Session) (c : Option ClassEntry) : Session :=
  { σ with classes := σ.classes ++ c.toList }

/-- Changes a set. -/
def editSet (σ : Session) (i : Nat) (f : TransformSet → TransformSet) : Session :=
  { σ with sets := σ.sets.modify i f }

/-- Changes what is asked of a class. -/
def editClass (σ : Session) (p : Place) (f : ClassTransforms → ClassTransforms) : Session :=
  match p with
  | .held i n => σ.editSet i fun s => if s.contains n then s.modify n f else s
  | .loose i =>
    { σ with classes := σ.classes.modify i fun c => { c with transforms := f c.transforms } }

/-- One operation. -/
def step (σ : Session) : Operation → Session
  | .newSet => σ.addSet (some ∅)
  | .copySet i => σ.addSet σ.sets[i]?
  | .newClass n => σ.addClass (some { name := n })
  | .copyClass p => σ.addClass (σ.class? p)
  | .touch i n => σ.editSet i (·.touch n)
  | .remove i n => (σ.editSet i (·.remove n)).addClass (σ.class? (.held i n))
  | .merge p slot t => σ.editClass p fun c => (c.merge slot t).2
  | .replace p slot t => σ.editClass p fun c => (c.replace slot t).2
  | .mergeClass p q => σ.editClass p fun c => (σ.class? q).elim c fun d => c.union d.transforms
  | .mergeSet i j => σ.editSet i fun s => (σ.sets[j]?).elim s s.merge
  | .complete i h c => σ.editSet i fun s => (s.complete h c).1
  | .completeAll i h => σ.editSet i fun s => (s.completeAll h).1
  | .remap i r => σ.addSet ((σ.sets[i]?).map fun s => (s.remap r).1)
  | .read settings bytes => σ.addSet (Format.read settings bytes).result.toOption
  | .readInto i settings bytes => σ.editSet i fun s => (Format.readInto settings bytes s).1

/-- Operations one after the other. -/
def run (σ : Session) (ops : List Operation) : Session := ops.foldl step σ

end Session

end Openness
