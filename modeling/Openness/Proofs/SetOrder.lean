import Mathlib.Order.Basic
import Openness.Proofs.Contents

/-!
# The order of sets

A set is above another one if it holds the classes of the other one and asks for at least
as much in every slot. Marks do not count, so sets that are above each other need not be
the same, but they are equal as sets are compared (`TransformSet.beq_iff_le`).

So a set that is made of others is known by what lies above it, just as a transform is:
two ways of making a set agree if the same sets are above what comes of them
(`TransformSet.beq_of_le_iff`).
-/

namespace Openness

namespace TransformSet

variable {s t : TransformSet}

/-- A set is above those whose classes it holds and that ask for no more in any slot. -/
instance : Preorder TransformSet where
  le s t := (∀ n, s.contains n = true → t.contains n = true) ∧
    ∀ n slot, s.get n slot ≤ t.get n slot
  le_refl _ := ⟨fun _ h => h, fun _ _ => le_rfl⟩
  le_trans _ _ _ h k :=
    ⟨fun n hn => k.1 n (h.1 n hn), fun n slot => (h.2 n slot).trans (k.2 n slot)⟩

theorem le_iff :
    s ≤ t ↔ (∀ n, s.contains n = true → t.contains n = true) ∧
      ∀ n slot, s.get n slot ≤ t.get n slot := Iff.rfl

/-- The set without classes is below all others. -/
theorem empty_le (s : TransformSet) : ∅ ≤ s :=
  ⟨fun _ h => absurd h Bool.false_ne_true, fun n slot => get_empty_le n slot _⟩

/-- Sets are equal if each is above the other. -/
theorem beq_iff_le : (s == t) = true ↔ s ≤ t ∧ t ≤ s := by
  rw [beq_iff_get, le_iff, le_iff]
  constructor
  · rintro ⟨hcontains, hget⟩
    exact ⟨⟨fun n hn => hcontains n ▸ hn, fun n slot => (hget n slot).le⟩,
      ⟨fun n hn => hcontains n ▸ hn, fun n slot => (hget n slot).ge⟩⟩
  · rintro ⟨⟨hcontains, hget⟩, hcontains', hget'⟩
    exact ⟨fun n => Bool.eq_iff_iff.2 ⟨hcontains n, hcontains' n⟩,
      fun n slot => le_antisymm (hget n slot) (hget' n slot)⟩

/-- Sets are equal if the same sets are above them. -/
theorem beq_of_le_iff (h : ∀ u, s ≤ u ↔ t ≤ u) : (s == t) = true :=
  beq_iff_le.2 ⟨(h t).2 le_rfl, (h s).1 le_rfl⟩

end TransformSet

end Openness
