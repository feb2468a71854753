import Mathlib.Data.List.TakeWhile

/-!
# Cutting at a separator

Texts are cut at the first or the last of some character, and sources of bytes at the first
newline. What is put together of a part without the separator and one that begins with it
is cut into these parts again.
-/

namespace Openness.Text

universe u

variable {α : Type u} [BEq α] [LawfulBEq α] {a : α} {l : List α}

theorem bne_of_not_mem (h : a ∉ l) : ∀ b ∈ l, (b != a) = true := fun b hb => by
  simpa using fun e : b = a => h (e ▸ hb)

theorem takeWhile_of_not_mem (h : a ∉ l) : l.takeWhile (· != a) = l :=
  List.takeWhile_eq_self_iff.2 (bne_of_not_mem h)

theorem dropWhile_of_not_mem (h : a ∉ l) : l.dropWhile (· != a) = [] :=
  List.dropWhile_eq_nil_iff.2 (bne_of_not_mem h)

theorem takeWhile_append_separator (h : a ∉ l) (rest : List α) :
    (l ++ a :: rest).takeWhile (· != a) = l := by
  rw [List.takeWhile_append_of_pos (bne_of_not_mem h)]
  simp

theorem dropWhile_append_separator (h : a ∉ l) (rest : List α) :
    (l ++ a :: rest).dropWhile (· != a) = a :: rest := by
  rw [List.dropWhile_append_of_pos (bne_of_not_mem h)]
  simp

end Openness.Text
