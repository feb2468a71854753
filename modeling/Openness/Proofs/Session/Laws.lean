import Openness.Proofs.Entries
import Openness.Proofs.Session.Runs

/-!
# What holds of every session

Whatever a caller does, three things hold of the session that comes of it
(`Session.run_lawful`).

* The tables are kept as they should be (`Session.Sound`): each class is in its set under
  its own name, and no entry of a field or method asks for nothing. Such an entry would hide
  what is asked of all fields or methods, and a class would seem to ask for something that
  does not.
* A mark is set by completion and stays until the class is removed. So for every complete
  class there is an operation that completed it, or the class that it is a copy of.
* What was read, or is under new names, is not complete.

The first holds because of what the tables are: whichever way an operation goes, it comes to
`Slots.set` and `Roster.put`, and these store no other things. The others are the law of
marks, over a run from the session in which there is nothing.
-/

namespace Openness

/-- The entries of a class are such that look-ups and the test for emptiness can rely on
    them. -/
structure ClassTransforms.Sound (c : ClassTransforms) : Prop where
  /-- No entry of a field asks for nothing. -/
  fields : ∀ e ∈ c.fields.toList, e.2 ≠ .neutral
  /-- No entry of a method asks for nothing. -/
  methods : ∀ e ∈ c.methods.toList, e.2 ≠ .neutral
  /-- What is asked of all members shows wherever nothing else is asked. -/
  fallback : ∀ slot, c.lookup slot =
    if c.get slot = .neutral then c.get slot.fallback else c.get slot
  /-- The class is empty exactly if no look-up asks for anything. -/
  isEmpty_iff : c.isEmpty = true ↔ c.get .own = .neutral ∧
    (∀ n, c.lookup (.field n) = .neutral) ∧ ∀ m, c.lookup (.method m) = .neutral

theorem ClassTransforms.sound (c : ClassTransforms) : c.Sound where
  fields _ := Slots.ne_neutral_of_mem_toList
  methods _ := Slots.ne_neutral_of_mem_toList
  fallback := c.lookup_eq
  isEmpty_iff := isEmpty_iff_lookup

namespace Session

/-- The tables of a session are kept as they should be. -/
structure Sound (σ : Session) : Prop where
  /-- Every class is stored in its set under its own name. -/
  named : ∀ s ∈ σ.sets, ∀ e ∈ s.classes.byName.toList, e.2.name = e.1
  /-- Every class has sound entries, in a set or not. -/
  entries : ∀ p c, σ.class? p = some c → c.transforms.Sound

theorem sound (σ : Session) : σ.Sound where
  named s _ _ he := s.name_of_find? (SortedMap.mem_toList.1 he)
  entries _ c _ := c.transforms.sound

/-- What holds of the session that some operations lead to, and of how it goes on from
    there. -/
structure Lawful (ops : List Operation) : Prop where
  /-- The tables are kept as they should be. -/
  sound : ((∅ : Session).run ops).Sound
  /-- A complete class stays complete until it is removed. -/
  stays : ∀ p, ((∅ : Session).run ops).isComplete p = true →
    ∀ later, (∀ op ∈ later, ¬op.Removes p) → ((∅ : Session).run (ops ++ later)).isComplete p = true
  /-- From then on there is no complete class in its place. -/
  removed : ∀ op p, op.Removes p → (((∅ : Session).run ops).step op).isComplete p = false
  /-- The complete classes are those that were completed, and copies of such. -/
  completed : ∀ p, ((∅ : Session).run ops).isComplete p = true ↔ (∅ : Session).CompletedIn ops p
  /-- No class of a set under new names is complete. -/
  renamed : ∀ i r n, (((∅ : Session).run ops).step (.remap i r)).isComplete
    (.held ((∅ : Session).run ops).sets.length n) = false
  /-- No class of a set that was read is complete. -/
  read : ∀ settings bytes n, (((∅ : Session).run ops).step (.read settings bytes)).isComplete
    (.held ((∅ : Session).run ops).sets.length n) = false

/-- Every session is lawful, whatever was done in it. -/
theorem run_lawful (ops : List Operation) : Lawful ops where
  sound := sound _
  stays p hp later hlater := by
    rw [run, List.foldl_append]
    exact isComplete_run_of_not_removed hp hlater
  removed _ _ := isComplete_of_removes
  completed p := by
    rw [isComplete_run_iff, or_iff_right]
    -- In the beginning there is no class.
    rintro ⟨q, -, hq⟩
    cases q <;> cases hq
  renamed := isComplete_remap
  read := isComplete_read

end Session

end Openness
