import Mathlib.Order.Bounds.Basic
import Openness.Proofs.SetOrder

/-!
# Merging sets

Merging goes class by class, and a set is the same as its slots: in each slot, what the
two sets ask for is joined (`TransformSet.get_merge`), and all classes of both are held
(`TransformSet.contains_merge_iff`). So merging is the join in the order of sets
(`TransformSet.isLUB_merge`), and its laws are those of a join
(`TransformSet.merge_laws`): neither the order of many sets nor how often one of them is
merged in makes a difference.

The marks are no part of this. Those of the set that is merged into stay, and what is new
in it has inherited nothing (`TransformSet.isComplete_merge`). So the laws hold of sets as
they are compared, without their marks.
-/

namespace Openness

namespace TransformSet

variable {s t : TransformSet} {n : String} {slot : Slot} {u : Transform}

/-! ## Slots -/

/-- A slot is below a transform after a class was joined in if it was before and, should
    it be a slot of the class, that slot is. -/
theorem get_absorb_le_iff {c : ClassEntry} :
    (s.absorb c).get n slot ≤ u ↔ s.get n slot ≤ u ∧ (c.name = n → c.transforms.get slot ≤ u) := by
  rw [absorb, get_modify]
  split
  · rename_i h
    subst h
    rw [ClassTransforms.get_union, Transform.max_le_iff]
    exact and_congr_right fun _ => ⟨fun h _ => h, fun h => h rfl⟩
  · rename_i h
    exact ⟨fun hs => ⟨hs, fun hn => absurd hn.symm h⟩, And.left⟩

theorem get_foldl_absorb_le_iff {cs : List ClassEntry} :
    (cs.foldl absorb s).get n slot ≤ u ↔
      s.get n slot ≤ u ∧ ∀ c ∈ cs, c.name = n → c.transforms.get slot ≤ u := by
  refine foldl_iff_forall (Q := fun s => s.get n slot ≤ u) (fun s c => ?_) s cs
  exact get_absorb_le_iff

/-- Sets are merged slot by slot. -/
theorem get_merge (s t : TransformSet) (n : String) (slot : Slot) :
    (s.merge t).get n slot = max (s.get n slot) (t.get n slot) := by
  refine eq_of_forall_ge_iff fun u => ?_
  rw [merge, get_foldl_absorb_le_iff, ← get_le_iff, Transform.max_le_iff]

/-! ## Classes and marks -/

/-- Merged, two sets hold the classes of both. -/
theorem contains_merge_iff :
    (s.merge t).contains n = true ↔ s.contains n = true ∨ t.contains n = true := by
  rw [contains_iff_exists (s := t), merge]
  refine foldl_iff_exists (Q := fun s => s.contains n = true) (fun s c => ?_) s _
  exact contains_modify_iff

/-- Merging leaves the marks, and the classes that are new have none. -/
theorem isComplete_merge (s t : TransformSet) (n : String) :
    (s.merge t).isComplete n = s.isComplete n := by
  rw [merge]
  refine foldl_keeps (V := fun s => s.isComplete n) (fun s c => ?_) s _
  exact isComplete_modify ..

/-! ## The join of two sets -/

/-- A set is above two sets merged exactly if it is above both. -/
theorem merge_le_iff {m : TransformSet} : s.merge t ≤ m ↔ s ≤ m ∧ t ≤ m := by
  simp only [le_iff, contains_merge_iff, get_merge, Transform.max_le_iff, or_imp, forall_and]
  exact and_and_and_comm

/-- Merging is the join of sets. -/
theorem isLUB_merge (s t : TransformSet) : IsLUB {s, t} (s.merge t) := by
  refine isLUB_iff_le_iff.2 fun m => ?_
  rw [merge_le_iff, upperBounds_insert, upperBounds_singleton]
  rfl

/-- `m` is `s` with `t` merged into it. -/
structure IsMerge (s t m : TransformSet) : Prop where
  /-- The classes of both are held, also those that nothing is asked of. -/
  contains : ∀ n, m.contains n = true ↔ s.contains n = true ∨ t.contains n = true
  /-- Every slot asks for the join of what it asks for in both. -/
  get : ∀ n slot, m.get n slot = max (s.get n slot) (t.get n slot)
  /-- No set that is above both is smaller. -/
  least : IsLUB {s, t} m
  /-- The classes of `s` keep their marks. -/
  marks : ∀ n c, s.find? n = some c → ∃ d, m.find? n = some d ∧ d.complete = c.complete
  /-- The classes that are new have inherited nothing. -/
  new_marks : ∀ n d, s.find? n = none → m.find? n = some d → d.complete = false

theorem isMerge_merge (s t : TransformSet) : IsMerge s t (s.merge t) where
  contains _ := contains_merge_iff
  get := get_merge s t
  least := isLUB_merge s t
  marks n c hc := by
    have hheld : ∃ d, (s.merge t).find? n = some d :=
      Option.isSome_iff_exists.1 (contains_merge_iff.2 (.inl (Option.isSome_iff_exists.2 ⟨c, hc⟩)))
    obtain ⟨d, hd⟩ := hheld
    refine ⟨d, hd, ?_⟩
    rw [← isComplete_of_find? hd, isComplete_merge, isComplete_of_find? hc]
  new_marks n d hs hd := by
    rw [← isComplete_of_find? hd, isComplete_merge, isComplete, entry, hs]
    rfl

/-- Merging is the join of two sets, so that it is commutative, associative and
    idempotent, and the set without classes changes nothing. -/
theorem merge_laws :
    (∀ s t, IsMerge s t (s.merge t)) ∧
      (∀ s t : TransformSet, (s.merge t == t.merge s) = true) ∧
      (∀ s t u : TransformSet, ((s.merge t).merge u == s.merge (t.merge u)) = true) ∧
      (∀ s : TransformSet, (s.merge s == s) = true) ∧
      ∀ s : TransformSet, (s.merge ∅ == s) = true ∧ ((∅ : TransformSet).merge s == s) = true := by
  refine ⟨isMerge_merge, fun s t => ?_, fun s t u => ?_, fun s => ?_, fun s => ⟨?_, ?_⟩⟩ <;>
    refine beq_of_le_iff fun m => ?_
  · rw [merge_le_iff, merge_le_iff, and_comm]
  · simp only [merge_le_iff, and_assoc]
  · rw [merge_le_iff, and_self]
  · rw [merge_le_iff, and_iff_left (empty_le m)]
  · rw [merge_le_iff, and_iff_right (empty_le m)]

end TransformSet

end Openness
