import Openness.Proofs.Descriptors
import Openness.Proofs.Merge
import Openness.Proofs.Remap.Preimages

/-!
# Renaming and back

A set that goes under new names and from there under old ones again is the set that it was,
if the second renamer takes back what the first one did (`TransformSet.remap_back`). It is
enough that it does so for the names that occur in the set. They need not be the only ones:
new names may be old names of other things, as when two classes change places.

Nothing meets on the way out, since what met could not be told apart on the way back
(`TransformSet.get_remapped_remapped_le_iff`). What is left is a matter of single slots
(`Renamer.TakesBack.slotTarget_slotTarget`), and there of descriptors: one under new names
must be read as a descriptor, and one that is none must not become one.
-/

namespace Openness

namespace Renamer

/-- A renamer that has no names for methods, and goes by its names of classes in
    descriptors. -/
structure KeepsMethods (r : Renamer) : Prop where
  newMethod : ∀ n m, r.newMethod n m = .none
  newDescriptor : ∀ d, r.newDescriptor d = renameDescriptor r.newClass d

theorem KeepsMethods.methodTarget_eq {r : Renamer} (h : r.KeepsMethods) (n : String)
    (m : Signature) : r.methodTarget n m = ⟨m.name, renameDescriptor r.newClass m.descriptor⟩ := by
  rw [methodTarget, h.newMethod, h.newDescriptor]
  rfl

end Renamer

/-! ## Two renamers -/

/-- The class names in the descriptors of the methods of a class. -/
def ClassTransforms.descriptorNames (c : ClassTransforms) : List String :=
  c.methods.toList.flatMap fun e => Openness.descriptorNames e.1.descriptor

/-- The class names in the descriptors of a set. -/
def TransformSet.descriptorNames (s : TransformSet) : List String :=
  s.classes.toList.flatMap fun c => c.transforms.descriptorNames

namespace Renamer

/-- A renamer takes back what another one does to a set. -/
structure TakesBack (r₂ r₁ : Renamer) (s : TransformSet) : Prop where
  /-- Classes get their names back, those that are held and those in descriptors. -/
  classes : ∀ n ∈ s.classes.names ++ s.descriptorNames, r₂.classTarget (r₁.classTarget n) = n
  /-- In a descriptor, a class gets a name that can stand there. -/
  describable : ∀ n ∈ s.descriptorNames, ∀ n' ∈ r₁.newClass n, n' ≠ "" ∧ ';' ∉ n'.toList
  /-- Fields get their names back. -/
  fields : ∀ c ∈ s.classes.toList, ∀ e ∈ c.transforms.fields.toList,
    r₂.fieldTarget (r₁.classTarget c.name) (r₁.fieldTarget c.name e.1) = e.1

namespace TakesBack

variable {r₁ r₂ : Renamer} {s : TransformSet} {n : String} {slot : Slot}

/-- A class of which something is asked gets its name back. -/
theorem classTarget_classTarget (h : r₂.TakesBack r₁ s) (hn : s.contains n = true) :
    r₂.classTarget (r₁.classTarget n) = n :=
  h.classes n (List.mem_append_left _ (Roster.mem_names.2 hn))

/-- A slot of which something is asked gets back to its place. -/
theorem slotTarget_slotTarget (h : r₂.TakesBack r₁ s) (h₁ : r₁.KeepsMethods) (h₂ : r₂.KeepsMethods)
    (hslot : s.get n slot ≠ .neutral) :
    r₂.slotTarget (r₁.classTarget n) (r₁.slotTarget n slot) = slot := by
  obtain ⟨c, hc⟩ := Option.isSome_iff_exists.1 (TransformSet.contains_of_get_ne hslot)
  obtain rfl := TransformSet.name_of_find? hc
  have hmem := TransformSet.mem_classes.2 hc
  rw [TransformSet.get_of_find? hc] at hslot
  cases slot with
  | own => rfl
  | allFields => rfl
  | allMethods => rfl
  | field f => exact congrArg Slot.field (h.fields c hmem _ (Slots.mem_toList.2 ⟨rfl, hslot⟩))
  | method m =>
    have hnames : ∀ n ∈ Openness.descriptorNames m.descriptor, n ∈ s.descriptorNames := fun n hn =>
      List.mem_flatMap.2 ⟨c, hmem, List.mem_flatMap.2 ⟨_, Slots.mem_toList.2 ⟨rfl, hslot⟩, hn⟩⟩
    have hdescriptor : renameDescriptor r₂.newClass (renameDescriptor r₁.newClass m.descriptor) =
        m.descriptor :=
      renameDescriptor_renameDescriptor (fun n hn => h.describable n (hnames n hn)) fun n hn =>
        h.classes n (List.mem_append_right _ (hnames n hn))
    show Slot.method _ = _
    rw [h₁.methodTarget_eq, h₂.methodTarget_eq, hdescriptor]

end TakesBack

end Renamer

/-! ## Sets -/

namespace TransformSet

variable {r₁ r₂ : Renamer} {s : TransformSet} {n : String} {slot : Slot} {t : Transform}

/-- The classes under names that were given one after the other. -/
theorem contains_remapped_remapped_iff :
    ((s.remapped r₁).remapped r₂).contains n = true ↔
      ∃ m, s.contains m = true ∧ r₂.classTarget (r₁.classTarget m) = n := by
  simp only [contains_remapped_iff_contains]
  constructor
  · rintro ⟨_, ⟨m, hm, rfl⟩, hn⟩
    exact ⟨m, hm, hn⟩
  · rintro ⟨m, hm, hn⟩
    exact ⟨_, ⟨m, hm, rfl⟩, hn⟩

/-- What a slot asks for under names that were given one after the other. -/
theorem get_remapped_remapped_le_iff :
    ((s.remapped r₁).remapped r₂).get n slot ≤ t ↔
      ∀ m slot', r₂.classTarget (r₁.classTarget m) = n →
        r₂.slotTarget (r₁.classTarget m) (r₁.slotTarget m slot') = slot → s.get m slot' ≤ t := by
  simp only [get_remapped_le_iff_get]
  constructor
  · intro h m slot' hn hslot
    exact h _ _ hn hslot m slot' rfl rfl
  · rintro h _ _ hn hslot m slot' rfl rfl
    exact h m slot' hn hslot

/-- A set that goes under new names and back is the set that it was. -/
theorem remap_back (h₁ : r₁.KeepsMethods) (h₂ : r₂.KeepsMethods) (h : r₂.TakesBack r₁ s) :
    (((s.remap r₁).1.remap r₂).1 == s) = true := by
  refine beq_iff_get.2 ⟨fun n => ?_, fun n slot => eq_of_forall_ge_iff fun t => ?_⟩
  · show ((s.remapped r₁).remapped r₂).contains n = _
    rw [Bool.eq_iff_iff, contains_remapped_remapped_iff]
    constructor
    · rintro ⟨m, hm, rfl⟩
      rwa [h.classTarget_classTarget hm]
    · exact fun hn => ⟨n, hn, h.classTarget_classTarget hn⟩
  · show ((s.remapped r₁).remapped r₂).get n slot ≤ t ↔ _
    rw [get_remapped_remapped_le_iff]
    constructor
    · intro hle
      by_cases hslot : s.get n slot = .neutral
      · exact hslot ▸ Transform.neutral_le t
      · exact hle n slot (h.classTarget_classTarget (contains_of_get_ne hslot))
          (h.slotTarget_slotTarget h₁ h₂ hslot)
    · -- Nothing else comes to the slot: what does was there before.
      rintro hle m slot' rfl rfl
      by_cases hslot : s.get m slot' = .neutral
      · exact hslot ▸ Transform.neutral_le t
      · rwa [h.classTarget_classTarget (contains_of_get_ne hslot),
          h.slotTarget_slotTarget h₁ h₂ hslot] at hle

/-- Two classes change places, and a field of the first gets a new name. -/
def exchange : Renamer where
  newClass n := if n = "a/A" then some "a/B" else if n = "a/B" then some "a/A" else none
  newField n f := if n = "a/A" ∧ f = "x" then some "y" else none
  newMethod _ _ := none

/-- The classes change places again, and the field gets its name back. -/
def exchangeBack : Renamer where
  newClass := exchange.newClass
  newField n f := if n = "a/B" ∧ f = "y" then some "x" else none
  newMethod _ _ := none

/-- The two classes, with a method each: one names both classes, the other one has a text that
    is no descriptor. -/
def exchanged : TransformSet :=
  ((((∅ : TransformSet).join "a/A" (.field "x") ⟨.toPublic, .keep⟩).join
    "a/A" (.method ⟨"run", "(La/A;[[La/B;I)La/C;"⟩) ⟨.toProtected, .add⟩).join
    "a/B" (.field "x") ⟨.keep, .remove⟩).join
    "a/B" (.method ⟨"run", "(La/A"⟩) ⟨.toPrivate, .keep⟩

/-- The classes change places twice. In between, the first has the second one's name. -/
theorem exchange_back :
    exchange.KeepsMethods ∧ exchangeBack.KeepsMethods ∧ exchangeBack.TakesBack exchange exchanged ∧
      (exchanged.remap exchange).1.get "a/B" (.method ⟨"run", "(La/B;[[La/A;I)La/C;"⟩) =
        ⟨.toProtected, .add⟩ ∧
      (((exchanged.remap exchange).1.remap exchangeBack).1 == exchanged) = true := by
  have h₁ : exchange.KeepsMethods := ⟨fun _ _ => rfl, fun _ => rfl⟩
  have h₂ : exchangeBack.KeepsMethods := ⟨fun _ _ => rfl, fun _ => rfl⟩
  have h : exchangeBack.TakesBack exchange exchanged :=
    ⟨by decide +kernel, by decide +kernel, by decide +kernel⟩
  exact ⟨h₁, h₂, h, by decide +kernel, remap_back h₁ h₂ h⟩

end TransformSet

end Openness
