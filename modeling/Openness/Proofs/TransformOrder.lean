import Mathlib.Order.Bounds.Basic
import Openness.ClassTransforms

/-!
# The order of transforms

A transform is above another one if it asks for at least as much: for an access
level as wide, and for a change of the final flag as strong. This makes the
transforms a semilattice whose joins are those of `Transform` and whose least
element is the neutral transform.

A join is known by what lies above it. That is how a list of transforms is
dealt with here: what it asks of a key is the least transform above all that it
holds for the key (`Slots.asked_le_iff`), however often and in whatever order.
-/

namespace Openness

/-- A level is above those that come before it in the chain. -/
instance : PartialOrder Access := PartialOrder.lift Access.rank fun _ _ => Access.rank_inj

/-- A change is above those that come before it in the chain. -/
instance : PartialOrder Finality := PartialOrder.lift Finality.rank fun _ _ => Finality.rank_inj

theorem Access.le_iff {a b : Access} : a ≤ b ↔ a.rank ≤ b.rank := Iff.rfl

theorem Finality.le_iff {f g : Finality} : f ≤ g ↔ f.rank ≤ g.rank := Iff.rfl

instance (a b : Access) : Decidable (a ≤ b) := decidable_of_iff _ Access.le_iff.symm

instance (f g : Finality) : Decidable (f ≤ g) := decidable_of_iff _ Finality.le_iff.symm

namespace Transform

/-- A transform is above another one if both of its parts are. -/
instance : SemilatticeSup Transform where
  le s t := s.access ≤ t.access ∧ s.finality ≤ t.finality
  le_refl _ := ⟨le_rfl, le_rfl⟩
  le_trans _ _ _ h k := ⟨h.1.trans k.1, h.2.trans k.2⟩
  le_antisymm s t h k := by
    cases s
    cases t
    exact congr (congrArg Transform.mk (le_antisymm h.1 k.1)) (le_antisymm h.2 k.2)
  sup s t := max s t
  le_sup_left s t := by
    simp [Access.le_iff, Finality.le_iff, Access.rank_max, Finality.rank_max]
  le_sup_right s t := by
    simp [Access.le_iff, Finality.le_iff, Access.rank_max, Finality.rank_max]
  sup_le s t u h k := by
    simp only [access_max, finality_max, Access.le_iff, Finality.le_iff, Access.rank_max,
      Finality.rank_max, Nat.max_le]
    exact ⟨⟨h.1, k.1⟩, ⟨h.2, k.2⟩⟩

/-- The neutral transform is below all others. -/
instance : OrderBot Transform where
  bot := neutral
  bot_le _ := ⟨Nat.zero_le _, Nat.zero_le _⟩

theorem le_iff {s t : Transform} : s ≤ t ↔ s.access ≤ t.access ∧ s.finality ≤ t.finality := Iff.rfl

instance (s t : Transform) : Decidable (s ≤ t) := decidable_of_iff _ le_iff.symm

theorem neutral_le (t : Transform) : neutral ≤ t := bot_le

theorem le_max_left (s t : Transform) : s ≤ max s t := le_sup_left

theorem max_le_iff {s t u : Transform} : max s t ≤ u ↔ s ≤ u ∧ t ≤ u := sup_le_iff

theorem le_neutral_iff {t : Transform} : t ≤ neutral ↔ t = neutral := le_bot_iff

end Transform

namespace Slots

universe u

variable {κ : Type u} [Key κ] [DecidableEq κ]

omit [Key κ] in
/-- What a list asks of a key is the least transform above all that it holds for
    the key. -/
theorem asked_le_iff {k : κ} {l : List (κ × Transform)} {t : Transform} :
    asked k l ≤ t ↔ ∀ e ∈ l, e.1 = k → e.2 ≤ t := by
  induction l with
  | nil => simp [asked, Transform.neutral_le]
  | cons e l ih =>
    rw [asked, List.forall_mem_cons]
    split
    · rename_i h
      rw [Transform.max_le_iff, ih]
      exact and_congr_left fun _ => ⟨fun he _ => he, fun he => he h.symm⟩
    · rename_i h
      rw [ih]
      exact ⟨fun hl => ⟨fun he => absurd he.symm h, hl⟩, And.right⟩

end Slots

end Openness
