import Mathlib.Data.List.Basic
import Openness.Proofs.TransformOrder
import Openness.TransformSet

/-!
# What a set holds

Sets are compared by their contents, and the contents of a set are known by two
questions: which classes it holds, and what is asked in each slot of each class
(`TransformSet.beq_iff_get`). A set without its empty classes holds just those
in which something is asked of some slot (`TransformSet.contains_trim_iff`).

The marks are no part of the contents. Two sets that are equal are one and the same set if
they also agree in these (`TransformSet.eq_of_beq`). As a transform is known by what lies
above it, that is all there is to compare in a slot (`TransformSet.ext_of_le_iff`).

Both questions are asked of sets that come of many changes, one for each member of a list:
a slot is below a transform if every change keeps it there (`foldl_iff_forall`), and a
class is held if some change needs it (`foldl_iff_exists`). So it is enough to know what
one change does.
-/

namespace Openness

/-! ## One change after the other -/

section Changes

universe u v w

variable {σ : Type u} {α : Type v} {step : σ → α → σ} {Q : σ → Prop} {P : α → Prop}

/-- What each change keeps under a condition of its own holds after many changes if it
    held before and all the conditions do. -/
theorem foldl_iff_forall (h : ∀ s a, Q (step s a) ↔ Q s ∧ P a) (s : σ) (l : List α) :
    Q (l.foldl step s) ↔ Q s ∧ ∀ a ∈ l, P a := by
  induction l generalizing s with
  | nil => simp
  | cons a l ih => rw [List.foldl_cons, ih, h, List.forall_mem_cons, and_assoc]

/-- What each change may bring about holds after many changes if it held before or one of
    them brings it about. -/
theorem foldl_iff_exists (h : ∀ s a, Q (step s a) ↔ Q s ∨ P a) (s : σ) (l : List α) :
    Q (l.foldl step s) ↔ Q s ∨ ∃ a ∈ l, P a := by
  induction l generalizing s with
  | nil => simp
  | cons a l ih => rw [List.foldl_cons, ih, h, List.exists_mem_cons_iff, or_assoc]

/-- What no change touches is as it was after many changes. -/
theorem foldl_keeps {β : Type w} {V : σ → β} (h : ∀ s a, V (step s a) = V s) (s : σ)
    (l : List α) : V (l.foldl step s) = V s := by
  induction l generalizing s with
  | nil => rfl
  | cons a l ih => rw [List.foldl_cons, ih, h]

end Changes

namespace TransformSet

/-- What is asked of a class is a matter of the contents. -/
theorem entry_transforms (s : TransformSet) (n : String) :
    (s.entry n).transforms = ((s.find? n).map ClassEntry.transforms).getD ∅ := by
  rw [entry]
  cases s.find? n <;> rfl

/-- What is asked in a slot is a matter of the contents. -/
theorem get_eq (s : TransformSet) (n : String) (slot : Slot) :
    s.get n slot = (((s.find? n).map ClassEntry.transforms).getD ∅).get slot := by
  rw [get, entry_transforms]

/-- Sets are equal if they hold the same classes and ask the same in every slot. -/
theorem beq_iff_get {s t : TransformSet} :
    (s == t) = true ↔
      (∀ n, s.contains n = t.contains n) ∧ ∀ n slot, s.get n slot = t.get n slot := by
  rw [beq_iff]
  constructor
  · intro h
    refine ⟨fun n => ?_, fun n slot => ?_⟩
    · have := congrArg Option.isSome (h n)
      rwa [Option.isSome_map, Option.isSome_map] at this
    · rw [get_eq, h n, ← get_eq]
  · rintro ⟨hcontains, hget⟩ n
    -- Both hold the class or neither does, and a class is its slots.
    have hn : (s.find? n).isSome = (t.find? n).isSome := hcontains n
    have hslots (slot : Slot) := hget n slot
    simp only [get_eq] at hslots
    cases hs : s.find? n with
    | none =>
      rw [hs, Option.isSome_none] at hn
      rw [Option.isSome_eq_false_iff.1 hn.symm |> Option.isNone_iff_eq_none.1]
    | some c =>
      rw [hs, Option.isSome_some] at hn
      obtain ⟨d, ht⟩ := Option.isSome_iff_exists.1 hn.symm
      rw [hs, ht] at hslots
      rw [ht]
      exact congrArg some (ClassTransforms.ext_get hslots)

/-- The classes listed are those held, each under its own name. -/
theorem mem_classes {s : TransformSet} {c : ClassEntry} :
    c ∈ s.classes.toList ↔ s.find? c.name = some c :=
  Roster.mem_toList

/-- A set holds a class if it lists one of that name. -/
theorem contains_iff_exists {s : TransformSet} {n : String} :
    s.contains n = true ↔ ∃ c ∈ s.classes.toList, c.name = n := by
  constructor
  · intro h
    obtain ⟨c, hc⟩ := Option.isSome_iff_exists.1 h
    obtain rfl := name_of_find? hc
    exact ⟨c, mem_classes.2 hc, rfl⟩
  · rintro ⟨c, hc, rfl⟩
    exact Option.isSome_iff_exists.2 ⟨c, mem_classes.1 hc⟩

theorem get_of_find? {s : TransformSet} {n : String} {c : ClassEntry} (h : s.find? n = some c)
    (slot : Slot) : s.get n slot = c.transforms.get slot := by
  rw [get_eq, h]
  rfl

/-- The set without classes asks for nothing. -/
theorem get_empty_le (n : String) (slot : Slot) (t : Transform) :
    (∅ : TransformSet).get n slot ≤ t :=
  (ClassTransforms.get_empty slot).le.trans (Transform.neutral_le t)

/-- Something is asked of a class only if the set holds it. -/
theorem contains_of_get_ne {s : TransformSet} {n : String} {slot : Slot}
    (h : s.get n slot ≠ .neutral) : s.contains n = true := by
  cases hn : s.find? n with
  | none =>
    rw [get_eq, hn] at h
    exact absurd (ClassTransforms.get_empty slot) h
  | some c => exact Option.isSome_iff_exists.2 ⟨c, hn⟩

/-- A slot is below a transform exactly if it is in the class that is held, if any. -/
theorem get_le_iff {s : TransformSet} {n : String} {slot : Slot} {u : Transform} :
    s.get n slot ≤ u ↔ ∀ c ∈ s.classes.toList, c.name = n → c.transforms.get slot ≤ u := by
  constructor
  · rintro h c hc rfl
    exact get_of_find? (mem_classes.1 hc) slot ▸ h
  · intro h
    by_cases hn : s.get n slot = .neutral
    · exact hn ▸ Transform.neutral_le u
    · obtain ⟨c, hc⟩ := Option.isSome_iff_exists.1 (contains_of_get_ne hn)
      obtain rfl := name_of_find? hc
      exact get_of_find? hc slot ▸ h c (mem_classes.2 hc) rfl

/-! ## Marks -/

theorem isComplete_of_find? {s : TransformSet} {n : String} {c : ClassEntry}
    (h : s.find? n = some c) : s.isComplete n = c.complete := by
  rw [isComplete, entry, h]
  rfl

/-- A class is the same in equal sets if its marks agree. -/
theorem find?_eq_of_beq {s t : TransformSet} (h : (s == t) = true) {n : String}
    (hmark : s.isComplete n = t.isComplete n) : s.find? n = t.find? n := by
  have htransforms := beq_iff.1 h n
  rw [isComplete, isComplete, entry, entry] at hmark
  cases hs : s.find? n with
  | none =>
    rw [hs] at htransforms
    exact (Option.map_eq_none_iff.1 htransforms.symm).symm
  | some c =>
    -- The other set holds the class, too: with the same name, transforms and mark.
    rw [hs] at htransforms hmark
    obtain ⟨d, hd, hdc⟩ := Option.map_eq_some_iff.1 htransforms.symm
    rw [hd] at hmark
    have hname : d.name = c.name := (name_of_find? hd).trans (name_of_find? hs).symm
    rw [hd]
    cases c
    cases d
    cases hname
    cases hdc
    cases hmark
    rfl

/-- Equal sets are one set if their marks agree. -/
theorem eq_of_beq {s t : TransformSet} (h : (s == t) = true)
    (hmarks : ∀ n, s.isComplete n = t.isComplete n) : s = t :=
  congrArg TransformSet.mk (Roster.ext_find? fun n => find?_eq_of_beq h (hmarks n))

/-- Sets are one set if they hold the same classes, the same transforms are above their
    slots, and their marks agree. -/
theorem ext_of_le_iff {s t : TransformSet}
    (hcontains : ∀ n, s.contains n = true ↔ t.contains n = true)
    (hget : ∀ n slot u, s.get n slot ≤ u ↔ t.get n slot ≤ u)
    (hmarks : ∀ n, s.isComplete n = t.isComplete n) : s = t := by
  refine eq_of_beq (beq_iff_get.2 ⟨fun n => ?_, fun n slot => ?_⟩) hmarks
  · exact Bool.eq_iff_iff.2 (hcontains n)
  · exact eq_of_forall_ge_iff (hget n slot)

/-! ## Empty classes -/

theorem get_trim (s : TransformSet) (n : String) (slot : Slot) :
    s.trim.get n slot = s.get n slot := by
  cases hn : s.find? n with
  | none => rw [get_eq, get_eq, find?_trim, hn, Option.filter_none]
  | some c =>
    rw [get_eq, get_eq, find?_trim, hn]
    by_cases hc : c.transforms.isEmpty = true
    · rw [Option.filter_some_neg (by simpa using hc)]
      exact ((ClassTransforms.get_empty slot).trans (ClassTransforms.isEmpty_iff.1 hc slot).symm)
    · rw [Option.filter_some_pos (by simpa using hc)]

/-- Without its empty classes, a set holds those that something is asked of. -/
theorem contains_trim_iff {s : TransformSet} {n : String} :
    s.trim.contains n = true ↔ ∃ slot, s.get n slot ≠ .neutral := by
  constructor
  · intro h
    obtain ⟨c, hc⟩ := Option.isSome_iff_exists.1 h
    obtain ⟨hn, hne⟩ := Option.filter_eq_some_iff.1 ((s.find?_trim n).symm.trans hc)
    rw [Bool.not_eq_true', ← Bool.not_eq_true, ClassTransforms.isEmpty_iff, not_forall] at hne
    obtain ⟨slot, hslot⟩ := hne
    exact ⟨slot, (get_of_find? hn slot).symm ▸ hslot⟩
  · rintro ⟨slot, hslot⟩
    rw [← get_trim] at hslot
    exact contains_of_get_ne hslot

/-- A set without empty classes stays as it is when these are left out. -/
theorem trim_eq_self {s : TransformSet} (h : ∀ c ∈ s.classes.toList, c.transforms.isEmpty = false) :
    s.trim = s := by
  refine congrArg TransformSet.mk (Roster.ext_find? fun n => ?_)
  rw [Roster.find?_filter]
  cases hn : s.classes.find? n with
  | none => rfl
  | some c =>
    have hc : c.name = n := name_of_find? hn
    have hne := h c (mem_classes.2 (hc.symm ▸ hn))
    exact Option.filter_some_pos (by rw [hne]; rfl)

end TransformSet

end Openness
