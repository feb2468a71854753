import Openness.Proofs.Remap.Back

/-!
# Renaming nothing

A renamer may answer and still rename nothing: whatever it says is the very name it was asked
for (`Renamer.KeepsNames`). Then every class and every slot goes to its own place, and a set
under the new names is the set that it was (`TransformSet.remap_keeps_names`), with its empty
classes.

A method that the renamer has no answer for takes its descriptor with the names of classes
replaced. This is read and printed again, and comes out as it was, as printing gives back what
was read (`renameDescriptor_eq_self`).
-/

namespace Openness

namespace Renamer

/-- A renamer that has no names but the old ones, and goes by its names of classes in
    descriptors. -/
structure KeepsNames (r : Renamer) : Prop where
  newClass : ∀ n, ∀ n' ∈ r.newClass n, n' = n
  newField : ∀ n f, ∀ f' ∈ r.newField n f, f' = f
  newMethod : ∀ n m, ∀ m' ∈ r.newMethod n m, m' = m
  newDescriptor : ∀ d, r.newDescriptor d = renameDescriptor r.newClass d

/-- An answer that says nothing new changes nothing. -/
theorem getD_eq_self {α : Type} {answer : Option α} {a : α} (h : ∀ b ∈ answer, b = a) :
    answer.getD a = a := by
  cases answer with
  | none => rfl
  | some b => exact h b rfl

/-- The renamer that knows no new names keeps the old ones. -/
theorem keepsNames_none : none.KeepsNames where
  newClass _ _ h := nomatch h
  newField _ _ _ h := nomatch h
  newMethod _ _ _ h := nomatch h
  newDescriptor _ := rfl

namespace KeepsNames

variable {r : Renamer}

theorem classTarget_eq (h : r.KeepsNames) (n : String) : r.classTarget n = n :=
  getD_eq_self (h.newClass n)

theorem methodTarget_eq (h : r.KeepsNames) (n : String) (m : Signature) :
    r.methodTarget n m = m := by
  have hdescriptor : r.newDescriptor m.descriptor = m.descriptor := by
    rw [h.newDescriptor]
    exact renameDescriptor_eq_self fun n _ => h.classTarget_eq n
  rw [methodTarget, hdescriptor]
  exact getD_eq_self (h.newMethod n m)

/-- Every slot stays in its place. -/
theorem slotTarget_eq (h : r.KeepsNames) (n : String) (slot : Slot) :
    r.slotTarget n slot = slot := by
  cases slot with
  | own => rfl
  | allFields => rfl
  | allMethods => rfl
  | field f => exact congrArg Slot.field (getD_eq_self (h.newField n f))
  | method m => exact congrArg Slot.method (h.methodTarget_eq n m)

end KeepsNames

end Renamer

namespace TransformSet

/-- A renamer that keeps all names keeps the classes and what is asked of them. -/
theorem remapped_beq {r : Renamer} (h : r.KeepsNames) (s : TransformSet) :
    (s.remapped r == s) = true := by
  refine beq_iff_get.2 ⟨fun n => ?_, fun n slot => eq_of_forall_ge_iff fun t => ?_⟩
  · rw [Bool.eq_iff_iff, contains_remapped_iff_contains]
    simp only [h.classTarget_eq, exists_eq_right]
  · rw [get_remapped_le_iff_get]
    simp only [h.classTarget_eq, h.slotTarget_eq]
    exact ⟨fun hle => hle n slot rfl rfl, fun hle _ _ hn hslot => hn ▸ hslot ▸ hle⟩

/-- Under a renamer without real renames every set stays as it is, so in particular under the
    one that knows no new names. -/
theorem remap_keeps_names :
    (∀ (r : Renamer) (s : TransformSet), r.KeepsNames → ((s.remap r).1 == s) = true) ∧
      ∀ s : TransformSet, ((s.remap Renamer.none).1 == s) = true :=
  ⟨fun _ s h => remapped_beq h s, remapped_beq Renamer.keepsNames_none⟩

/-- A class, all fields and the methods of a class get the names that they have, and everything
    else gets none. -/
def insisting : Renamer where
  newClass n := if n = "a/A" then some n else none
  newField _ f := some f
  newMethod n m := if n = "a/C" then some m else none

/-- What was exchanged, with a class whose method gets its own name and one that nothing is
    asked of. -/
def insisted : TransformSet :=
  (exchanged.join "a/C" (.method ⟨"run", "()V"⟩) ⟨.toPublic, .keep⟩).touch "a/D"

/-- A descriptor that names two classes, a text that is no descriptor and an empty class stay. -/
theorem remap_insisting :
    insisting.KeepsNames ∧ ((insisted.remap insisting).1 == insisted) = true ∧
      (insisted.remap insisting).1.contains "a/D" = true ∧
      (insisted.remap insisting).1.get "a/B" (.method ⟨"run", "(La/A"⟩) = ⟨.toPrivate, .keep⟩ := by
  have h : insisting.KeepsNames := by
    refine ⟨fun n => ?_, fun n f => ?_, fun n m => ?_, fun d => rfl⟩
    all_goals simp [insisting]
  exact ⟨h, remap_keeps_names.1 _ _ h, by decide +kernel, by decide +kernel⟩

end TransformSet

end Openness
