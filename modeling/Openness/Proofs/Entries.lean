import Mathlib.Data.Fintype.EquivFin
import Openness.ClassTransforms

/-!
# Entries and look-ups

A look-up of a single field or method takes its entry and, where there is none, what is
asked of all of them. An entry asks for something, so it stands in the way of the others
only if it has something to say (`ClassTransforms.lookup_eq`). No slot has two of them
(`ClassTransforms.nodup_entries`).

There are more names than entries. So what is asked of all fields is seen by looking fields
up one by one, and a class is empty exactly if no look-up of the class, of a field or of a
method asks for anything (`ClassTransforms.isEmpty_iff_lookup`).
-/

namespace Openness

instance : Infinite Signature :=
  .of_injective (fun n : String => (⟨n, ""⟩ : Signature)) fun _ _ h => congrArg Signature.name h

namespace Slots

universe u

variable {κ : Type u} [Key κ] [DecidableEq κ]

/-- A listed entry asks for something. -/
theorem ne_neutral_of_mem_toList {s : Slots κ} {e : κ × Transform} (h : e ∈ s.toList) :
    e.2 ≠ .neutral :=
  (mem_toList.1 h).2

/-- There are more keys than entries. -/
theorem exists_find?_eq_none [Infinite κ] (s : Slots κ) : ∃ k, s.find? k = none := by
  obtain ⟨k, hk⟩ := Infinite.exists_notMem_finset s.stored.keys.toFinset
  rw [List.mem_toFinset, SortedMap.mem_keys, Option.not_isSome_iff_eq_none] at hk
  exact ⟨k, hk⟩

/-- With something else where there is no entry, nothing is asked for exactly if there are
    no entries and the other thing asks for nothing. -/
theorem forall_getD_find?_iff [Infinite κ] {s : Slots κ} {t : Transform} :
    (∀ k, (s.find? k).getD t = .neutral) ↔ s.isEmpty = true ∧ t = .neutral := by
  rw [isEmpty_iff]
  constructor
  · intro h
    refine ⟨fun k => ?_, ?_⟩
    · -- An entry would be looked up.
      by_contra hk
      have hentry := h k
      rw [find?_eq, if_neg hk] at hentry
      exact hk hentry
    · obtain ⟨k, hk⟩ := s.exists_find?_eq_none
      have hother := h k
      rwa [hk] at hother
  · rintro ⟨hs, rfl⟩ k
    exact hs k

end Slots

/-- Where a look-up goes on if a slot has no entry. -/
def Slot.fallback : Slot → Slot
  | .field _ => .allFields
  | .method _ => .allMethods
  | slot => slot

namespace ClassTransforms

/-- A look-up goes on exactly where nothing is asked. -/
theorem lookup_eq (c : ClassTransforms) (slot : Slot) :
    c.lookup slot = if c.get slot = .neutral then c.get slot.fallback else c.get slot := by
  cases slot with
  | field n =>
    show (c.fields.find? n).getD c.allFields = _
    rw [Slots.find?_eq]
    exact apply_ite (Option.getD · c.allFields) _ none (some (c.fields.get n))
  | method m =>
    show (c.methods.find? m).getD c.allMethods = _
    rw [Slots.find?_eq]
    exact apply_ite (Option.getD · c.allMethods) _ none (some (c.methods.get m))
  | own => exact (ite_self _).symm
  | allFields => exact (ite_self _).symm
  | allMethods => exact (ite_self _).symm

/-- No slot has two entries. -/
theorem nodup_entries (c : ClassTransforms) : (c.entries.map Prod.fst).Nodup := by
  have hfields : (c.fields.stored.keys.map Slot.field).Nodup :=
    c.fields.stored.nodup_keys.map fun _ _ => Slot.field.inj
  have hmethods : (c.methods.stored.keys.map Slot.method).Nodup :=
    c.methods.stored.nodup_keys.map fun _ _ => Slot.method.inj
  have hslots : (.own :: .allFields :: c.fields.stored.keys.map Slot.field ++
      .allMethods :: c.methods.stored.keys.map Slot.method).Nodup := by
    refine List.nodup_append.2 ⟨by simp [hfields], by simp [hmethods], fun a ha b hb => ?_⟩
    simp only [List.mem_cons, List.mem_map] at ha hb
    rcases ha with rfl | rfl | ⟨f, -, rfl⟩ <;> rcases hb with rfl | ⟨m, -, rfl⟩ <;> exact nofun
  -- Slots may be left out of the entries, but none comes twice.
  refine List.Nodup.sublist (List.filter_sublist.map Prod.fst) ?_
  simpa [fieldEntries, methodEntries, SortedMap.keys, Function.comp_def, Slots.toList] using hslots

/-- A class is empty exactly if no look-up asks for anything. -/
theorem isEmpty_iff_lookup {c : ClassTransforms} :
    c.isEmpty = true ↔ c.get .own = .neutral ∧ (∀ n, c.lookup (.field n) = .neutral) ∧
      ∀ m, c.lookup (.method m) = .neutral := by
  have hfields : (∀ n, c.lookup (.field n) = .neutral) ↔
      c.fields.isEmpty = true ∧ c.allFields = .neutral := Slots.forall_getD_find?_iff
  have hmethods : (∀ m, c.lookup (.method m) = .neutral) ↔
      c.methods.isEmpty = true ∧ c.allMethods = .neutral := Slots.forall_getD_find?_iff
  rw [hfields, hmethods]
  simp only [isEmpty, Transform.isNeutral, Bool.and_eq_true, decide_eq_true_eq]
  constructor
  · rintro ⟨⟨⟨⟨hown, hallFields⟩, hallMethods⟩, hfields⟩, hmethods⟩
    exact ⟨hown, ⟨hfields, hallFields⟩, hmethods, hallMethods⟩
  · rintro ⟨hown, ⟨hfields, hallFields⟩, hmethods, hallMethods⟩
    exact ⟨⟨⟨⟨hown, hallFields⟩, hallMethods⟩, hfields⟩, hmethods⟩

end ClassTransforms

end Openness
