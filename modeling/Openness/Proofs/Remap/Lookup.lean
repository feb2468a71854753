import Openness.Proofs.Entries
import Openness.Proofs.Remap.Preimages

/-!
# Looking up under new names

Where nothing meets, a look-up under new names gives what it gave under the old ones
(`TransformSet.lookup_remap`), also for members without an entry, which take what is asked
of all of them. A renamer may let other classes and other members meet. What counts is that
a class goes to its new name alone, and that no other entry of the class goes to the new
name of the member.

* `Renamer.slotTarget_eq_fallback_iff`: nothing but what is asked of all members goes to
  what is asked of all members;
* `TransformSet.get_remapped_of_alone`: a slot that goes to its place alone is the same
  there.
-/

namespace Openness

namespace Renamer

variable {r : Renamer} {n : String} {slot : Slot}

/-- Fields come from fields only. -/
theorem slotTarget_eq_field_iff {f : String} :
    r.slotTarget n slot = .field f ↔ ∃ f', r.fieldTarget n f' = f ∧ slot = .field f' := by
  cases slot <;> simp [slotTarget]

/-- Methods come from methods only. -/
theorem slotTarget_eq_method_iff {m : Signature} :
    r.slotTarget n slot = .method m ↔ ∃ m', r.methodTarget n m' = m ∧ slot = .method m' := by
  cases slot <;> simp [slotTarget]

/-- Where a look-up goes on, it goes on under new names. -/
theorem fallback_slotTarget : (r.slotTarget n slot).fallback = r.slotTarget n slot.fallback := by
  cases slot <;> rfl

/-- A place where look-ups go on is its own target, and that of no other slot. -/
theorem slotTarget_eq_fallback_iff {slot' : Slot} :
    r.slotTarget n slot' = r.slotTarget n slot.fallback ↔ slot' = slot.fallback := by
  cases slot <;> cases slot' <;> simp [slotTarget, Slot.fallback]

end Renamer

namespace TransformSet

variable {r : Renamer} {s : TransformSet} {n : String} {slot : Slot}

/-- No other class of a set goes where a class goes. -/
def ClassAlone (s : TransformSet) (r : Renamer) (n : String) : Prop :=
  ∀ m, s.contains m = true → r.classTarget m = r.classTarget n → m = n

/-- No other slot of a class, of those of which something is asked, goes where a slot goes. -/
def SlotAlone (s : TransformSet) (r : Renamer) (n : String) (slot : Slot) : Prop :=
  ∀ slot', s.get n slot' ≠ .neutral → r.slotTarget n slot' = r.slotTarget n slot → slot' = slot

/-- A slot that goes to its place alone asks there for what it asked for. -/
theorem get_remapped_of_alone (hn : s.ClassAlone r n) (hslot : s.SlotAlone r n slot) :
    (s.remapped r).get (r.classTarget n) (r.slotTarget n slot) = s.get n slot := by
  refine eq_of_forall_ge_iff fun t => ?_
  rw [get_remapped_le_iff_get]
  constructor
  · intro h
    exact h n slot rfl rfl
  · intro h m slot' hm hslot'
    by_cases hne : s.get m slot' = .neutral
    · exact hne ▸ Transform.neutral_le t
    · -- What asks for something and comes to the place is the slot itself.
      obtain rfl := hn m (contains_of_get_ne hne) hm
      obtain rfl := hslot slot' hne hslot'
      exact h

/-- A look-up goes on in a place to which nothing else goes. -/
theorem slotAlone_fallback (slot : Slot) : s.SlotAlone r n slot.fallback :=
  fun _ _ h => Renamer.slotTarget_eq_fallback_iff.1 h

/-- A look-up in a set goes on exactly where nothing is asked. -/
theorem lookup_eq (s : TransformSet) (n : String) (slot : Slot) :
    s.lookup n slot = if s.get n slot = .neutral then s.get n slot.fallback else s.get n slot :=
  ClassTransforms.lookup_eq _ slot

/-- A slot that goes to its place alone is looked up there as before. -/
theorem lookup_remapped_of_alone (hn : s.ClassAlone r n) (hslot : s.SlotAlone r n slot) :
    (s.remapped r).lookup (r.classTarget n) (r.slotTarget n slot) = s.lookup n slot := by
  have hget := get_remapped_of_alone hn hslot
  have hfallback := get_remapped_of_alone hn (slotAlone_fallback slot)
  rw [← Renamer.fallback_slotTarget] at hfallback
  rw [lookup_eq, hget, hfallback, ← lookup_eq]

theorem lookup_of_find? {c : ClassEntry} (h : s.find? n = some c) :
    s.lookup n slot = c.transforms.lookup slot := by
  rw [lookup, entry, h]
  rfl

/-! ## Members of a class -/

/-- Under new names, the class `d` answers as the class `c` did, for each member to whose
    new name no other entry of the class goes. -/
structure AnswersAlike (r : Renamer) (c d : ClassEntry) : Prop where
  /-- A field, with or without an entry. -/
  field : ∀ f, (∀ e ∈ c.transforms.fields.toList,
      r.fieldTarget c.name e.1 = r.fieldTarget c.name f → e.1 = f) →
    d.transforms.lookup (.field (r.fieldTarget c.name f)) = c.transforms.lookup (.field f)
  /-- A method, with or without an entry. -/
  method : ∀ m, (∀ e ∈ c.transforms.methods.toList,
      r.methodTarget c.name e.1 = r.methodTarget c.name m → e.1 = m) →
    d.transforms.lookup (.method (r.methodTarget c.name m)) = c.transforms.lookup (.method m)

/-- A member goes to its place alone if no entry of another one goes there: `slotOf` is the
    slot of a member, `stored` are the entries of the class, and `target` says where they
    go. -/
theorem slotAlone_of_entries {κ : Type} [Key κ] [DecidableEq κ] (slotOf : κ → Slot)
    {stored : Slots κ} {target : κ → κ} (hstored : ∀ k, s.get n (slotOf k) = stored.get k)
    (htarget : ∀ slot k, r.slotTarget n slot = slotOf k ↔ ∃ k', target k' = k ∧ slot = slotOf k')
    {k : κ} (h : ∀ e ∈ stored.toList, target e.1 = target k → e.1 = k) :
    s.SlotAlone r n (slotOf k) := by
  intro slot' hne hslot'
  have hk : r.slotTarget n (slotOf k) = slotOf (target k) := (htarget _ _).2 ⟨k, rfl, rfl⟩
  obtain ⟨k', hk', rfl⟩ := (htarget _ _).1 (hslot'.trans hk)
  -- Something is asked of the other member, so it has an entry.
  have hentry : (k', stored.get k') ∈ stored.toList := Slots.mem_toList.2 ⟨rfl, hstored k' ▸ hne⟩
  exact congrArg slotOf (h _ hentry hk')

/-- A class that goes to its new name alone answers there as it did before. -/
theorem lookup_remap {c : ClassEntry} (hc : c ∈ s.classes.toList)
    (halone : ∀ d ∈ s.classes.toList, r.classTarget d.name = r.classTarget c.name →
      d.name = c.name) :
    ∃ d, (s.remap r).1.find? (r.classTarget c.name) = some d ∧ AnswersAlike r c d := by
  have hfind := mem_classes.1 hc
  have hclass : s.ClassAlone r c.name := by
    intro m hm htarget
    obtain ⟨d, hd, rfl⟩ := contains_iff_exists.1 hm
    exact halone d hd htarget
  have hcontains : (s.remapped r).contains (r.classTarget c.name) = true :=
    contains_remapped_iff.2 ⟨c, hc, rfl⟩
  obtain ⟨d, hd⟩ := Option.isSome_iff_exists.1 hcontains
  have hget (slot : Slot) : s.get c.name slot = c.transforms.get slot := get_of_find? hfind slot
  have hlookup (slot : Slot) (hslot : s.SlotAlone r c.name slot) :
      d.transforms.lookup (r.slotTarget c.name slot) = c.transforms.lookup slot := by
    have h := lookup_remapped_of_alone hclass hslot
    rwa [lookup_of_find? hd, lookup_of_find? hfind] at h
  refine ⟨d, hd, fun f hf => hlookup (.field f) ?_, fun m hm => hlookup (.method m) ?_⟩
  · exact slotAlone_of_entries .field (fun f => hget (.field f))
      (fun _ _ => Renamer.slotTarget_eq_field_iff) hf
  · exact slotAlone_of_entries .method (fun m => hget (.method m))
      (fun _ _ => Renamer.slotTarget_eq_method_iff) hm

/-- A class of which something is asked for all fields and for three of them, and two other
    classes. -/
def neighbours : TransformSet :=
  ((((((∅ : TransformSet).join "a/A" .allFields ⟨.toPublic, .keep⟩).join
    "a/A" (.field "x") ⟨.toProtected, .remove⟩).join
    "a/A" (.field "p") ⟨.toPrivate, .keep⟩).join
    "a/A" (.field "q") ⟨.keep, .add⟩).join
    "a/A" (.method ⟨"run", "(La/A;)V"⟩) ⟨.toPackage, .keep⟩).touch "a/B" |>.touch "a/C"

/-- Two classes meet, and two fields. -/
def partlyMeeting : Renamer where
  newClass n :=
    if n = "a/A" then some "b/A" else if n = "a/B" ∨ n = "a/C" then some "a/D" else none
  newField _ f := if f = "x" then some "y" else if f = "p" ∨ f = "q" then some "r" else none
  newMethod _ _ := none

/-- A field with an entry, one without and a method, looked up under new names. -/
theorem lookup_remap_neighbours :
    ∃ d, (neighbours.remap partlyMeeting).1.find? "b/A" = some d ∧
      d.transforms.lookup (.field "y") = ⟨.toProtected, .remove⟩ ∧
      d.transforms.lookup (.field "z") = ⟨.toPublic, .keep⟩ ∧
      d.transforms.lookup (.method ⟨"run", "(Lb/A;)V"⟩) = ⟨.toPackage, .keep⟩ := by
  obtain ⟨d, hd, halike⟩ := lookup_remap (s := neighbours) (r := partlyMeeting)
    (c := neighbours.entry "a/A") (by decide +kernel) (by decide +kernel)
  refine ⟨d, hd, ?_, ?_, ?_⟩
  · exact (halike.field "x" (by decide +kernel)).trans (by decide +kernel)
  · exact (halike.field "z" (by decide +kernel)).trans (by decide +kernel)
  · have htarget : partlyMeeting.methodTarget "a/A" ⟨"run", "(La/A;)V"⟩ =
        ⟨"run", "(Lb/A;)V"⟩ := by decide +kernel
    rw [← htarget]
    exact (halike.method ⟨"run", "(La/A;)V"⟩ (by decide +kernel)).trans (by decide +kernel)

end TransformSet

end Openness
