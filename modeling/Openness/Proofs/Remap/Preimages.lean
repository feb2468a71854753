import Mathlib.Order.Bounds.Basic
import Openness.Proofs.Contents
import Openness.Remap

/-!
# Renaming joins what meets

New names may meet: two classes, or two members of them, may go to one place, and a new
name may be the old name of something else. What comes of it depends neither on the order
in which the classes are taken in nor on the renamer being injective: a class is held if
some class goes there, and a slot asks for the join of all slots that go there, always by
their old names.

* `TransformSet.get_absorbRenamed_le_iff`, `TransformSet.get_remapped_le_iff`: one class
  and all classes, by what lies above a slot;
* `TransformSet.isLUB_get_remapped`: the slots under the new names as joins;
* `TransformSet.remap_joins_preimages`: the same for what is stored, where members
  without an entry are told from those that are asked for nothing.
-/

namespace Openness

/-- The slots that are not neutral are below a transform exactly if all slots are. -/
theorem ClassTransforms.forall_entries_iff {c : ClassTransforms} {p : Slot → Prop} {t : Transform} :
    (∀ e ∈ c.entries, p e.1 → e.2 ≤ t) ↔ ∀ slot, p slot → c.get slot ≤ t := by
  constructor
  · intro h slot hslot
    by_cases hn : c.get slot = .neutral
    · exact hn ▸ Transform.neutral_le t
    · exact h (slot, _) (mem_entries.2 ⟨rfl, hn⟩) hslot
  · rintro h ⟨slot, u⟩ he hslot
    exact (mem_entries.1 he).1 ▸ h slot hslot

namespace TransformSet

variable {r : Renamer} {s : TransformSet} {n : String} {slot : Slot} {t : Transform}

/-! ## One class -/

/-- Joining entries into the slots that they go to leaves a slot asking for the least
    transform above what it asked for before and what goes there. -/
theorem get_foldl_join_le_iff {f : Slot → Slot} {l : List (Slot × Transform)}
    {c : ClassTransforms} :
    (l.foldl (fun c e => c.join (f e.1) e.2) c).get slot ≤ t ↔
      c.get slot ≤ t ∧ ∀ e ∈ l, f e.1 = slot → e.2 ≤ t := by
  refine foldl_iff_forall (Q := fun c => c.get slot ≤ t) (fun c e => ?_) c l
  rw [ClassTransforms.get_join]
  split
  · rename_i h
    rw [Transform.max_le_iff, h]
    exact and_congr_right fun _ => ⟨fun ht _ => ht, fun ht => ht rfl⟩
  · rename_i h
    exact ⟨fun hc => ⟨hc, fun he => absurd he.symm h⟩, And.left⟩

/-- A slot is below a transform after a class was taken in if it was before and all
    slots are that go there. -/
theorem get_absorbRenamed_le_iff {c : ClassEntry} :
    (s.absorbRenamed r c).get n slot ≤ t ↔
      s.get n slot ≤ t ∧ (r.classTarget c.name = n →
        ∀ slot', r.slotTarget c.name slot' = slot → c.transforms.get slot' ≤ t) := by
  rw [absorbRenamed, get_modify]
  split
  · rename_i h
    subst h
    rw [get_foldl_join_le_iff,
      ClassTransforms.forall_entries_iff (p := fun slot' => r.slotTarget c.name slot' = slot)]
    exact and_congr_right fun _ => ⟨fun h _ => h, fun h => h rfl⟩
  · rename_i h
    exact ⟨fun hs => ⟨hs, fun hn => absurd hn.symm h⟩, And.left⟩

/-! ## All classes -/

theorem get_foldl_absorbRenamed_le_iff {cs : List ClassEntry} :
    (cs.foldl (absorbRenamed r) s).get n slot ≤ t ↔
      s.get n slot ≤ t ∧ ∀ c ∈ cs, r.classTarget c.name = n →
        ∀ slot', r.slotTarget c.name slot' = slot → c.transforms.get slot' ≤ t := by
  refine foldl_iff_forall (Q := fun s => s.get n slot ≤ t) (fun s c => ?_) s cs
  exact get_absorbRenamed_le_iff

theorem contains_foldl_absorbRenamed_iff {cs : List ClassEntry} :
    (cs.foldl (absorbRenamed r) s).contains n = true ↔
      s.contains n = true ∨ ∃ c ∈ cs, r.classTarget c.name = n := by
  refine foldl_iff_exists (Q := fun s => s.contains n = true) (fun s c => ?_) s cs
  exact contains_modify_iff

/-- Taking in a class under its new names changes no mark. -/
theorem isComplete_foldl_absorbRenamed {cs : List ClassEntry} :
    (cs.foldl (absorbRenamed r) s).isComplete n = s.isComplete n := by
  refine foldl_keeps (V := fun s => s.isComplete n) (fun s c => ?_) s cs
  rw [absorbRenamed, isComplete_modify]

/-- A slot under the new names asks for the least transform above all slots that go
    there. -/
theorem get_remapped_le_iff :
    (s.remapped r).get n slot ≤ t ↔
      ∀ c ∈ s.classes.toList, r.classTarget c.name = n →
        ∀ slot', r.slotTarget c.name slot' = slot → c.transforms.get slot' ≤ t :=
  get_foldl_absorbRenamed_le_iff.trans
    (and_iff_right (get_empty_le n slot t))

theorem contains_remapped_iff :
    (s.remapped r).contains n = true ↔ ∃ c ∈ s.classes.toList, r.classTarget c.name = n :=
  contains_foldl_absorbRenamed_iff.trans (or_iff_right Bool.false_ne_true)

theorem isComplete_remapped (n : String) : (s.remapped r).isComplete n = false :=
  isComplete_foldl_absorbRenamed

/-- The classes under new names, by their old ones. -/
theorem contains_remapped_iff_contains :
    (s.remapped r).contains n = true ↔ ∃ m, s.contains m = true ∧ r.classTarget m = n := by
  rw [contains_remapped_iff]
  simp only [contains_iff_exists]
  constructor
  · rintro ⟨c, hc, hn⟩
    exact ⟨c.name, ⟨c, hc, rfl⟩, hn⟩
  · rintro ⟨_, ⟨c, hc, rfl⟩, hn⟩
    exact ⟨c, hc, hn⟩

/-- What a slot asks for under new names, by the slots under the old ones. -/
theorem get_remapped_le_iff_get :
    (s.remapped r).get n slot ≤ t ↔
      ∀ m slot', r.classTarget m = n → r.slotTarget m slot' = slot → s.get m slot' ≤ t := by
  rw [get_remapped_le_iff]
  constructor
  · intro h m slot' hm hslot
    rw [get_le_iff]
    rintro c hc rfl
    exact h c hc hm slot' hslot
  · intro h c hc hm slot' hslot
    exact get_le_iff.1 (h c.name slot' hm hslot) c hc rfl

/-- What a set asks for in the slots that go to a slot of a class. -/
def asksAt (s : TransformSet) (r : Renamer) (n : String) (slot : Slot) : Set Transform :=
  {u | ∃ c ∈ s.classes.toList, r.classTarget c.name = n ∧
    ∃ slot', r.slotTarget c.name slot' = slot ∧ c.transforms.get slot' = u}

/-- Under new names a slot asks for the join of what is asked for in all slots that go
    there. -/
theorem isLUB_get_remapped (s : TransformSet) (r : Renamer) (n : String) (slot : Slot) :
    IsLUB (s.asksAt r n slot) ((s.remapped r).get n slot) := by
  refine isLUB_iff_le_iff.2 fun t => get_remapped_le_iff.trans ?_
  constructor
  · rintro h _ ⟨c, hc, hn, slot', hslot, rfl⟩
    exact h c hc hn slot' hslot
  · intro h c hc hn slot' hslot
    exact h ⟨c, hc, hn, slot', hslot, rfl⟩

/-! ## What is stored -/

/-- The join of some transforms, which is absent if there are none of them. -/
def IsJoin (us : Set Transform) : Option Transform → Prop
  | none => us = ∅
  | some j => us.Nonempty ∧ IsLUB us j

/-- If all slots together ask for a join, those that are stored have that join, and it
    is stored if any of them is. -/
theorem isJoin_of_isLUB {us : Set Transform} {j : Transform} (h : IsLUB us j) :
    IsJoin {u ∈ us | u ≠ .neutral} (if j = .neutral then none else some j) := by
  split
  · rename_i hj
    refine Set.eq_empty_of_forall_notMem fun u hu => hu.2 ?_
    exact Transform.le_neutral_iff.1 (hj ▸ h.1 hu.1)
  · rename_i hj
    have hlub : IsLUB {u ∈ us | u ≠ .neutral} j := by
      refine ⟨fun u hu => h.1 hu.1, fun t ht => h.2 fun u hu => ?_⟩
      by_cases hn : u = .neutral
      · exact hn ▸ Transform.neutral_le t
      · exact ht ⟨hu, hn⟩
    refine ⟨?_, hlub⟩
    -- Without any of them the join would be the least transform.
    by_contra hempty
    rw [Set.not_nonempty_iff_eq_empty.1 hempty, isLUB_empty_iff] at hlub
    exact hj (Transform.le_neutral_iff.1 (hlub Transform.neutral))

/-- What is stored for one kind of member under the new names: `slotOf` is the slot of a
    member, `store` holds the members of a class, and `target` says where they go. -/
theorem isJoin_stored {κ : Type} [Key κ] [DecidableEq κ] (slotOf : κ → Slot)
    {store : ClassTransforms → Slots κ} {target : String → κ → κ}
    (hstore : ∀ c k, c.get (slotOf k) = (store c).get k)
    (htarget : ∀ c slot' k, r.slotTarget c slot' = slotOf k ↔
      ∃ k', target c k' = k ∧ slot' = slotOf k')
    (s : TransformSet) (n : String) (k : κ) :
    IsJoin
      {u | ∃ c ∈ s.classes.toList, r.classTarget c.name = n ∧
        ∃ k', target c.name k' = k ∧ (store c.transforms).find? k' = some u}
      ((store ((s.remapped r).entry n).transforms).find? k) := by
  -- An entry is what a slot asks, if it asks for something.
  have entries : {u | ∃ c ∈ s.classes.toList, r.classTarget c.name = n ∧
      ∃ k', target c.name k' = k ∧ (store c.transforms).find? k' = some u} =
        {u ∈ s.asksAt r n (slotOf k) | u ≠ .neutral} := by
    ext u
    simp only [asksAt, Set.mem_ofPred_eq, Slots.find?_eq_some_iff, htarget, ← hstore]
    constructor
    · rintro ⟨c, hc, hn, k', hk, rfl, hu⟩
      exact ⟨⟨c, hc, hn, _, ⟨k', hk, rfl⟩, rfl⟩, hu⟩
    · rintro ⟨⟨c, hc, hn, _, ⟨k', hk, rfl⟩, rfl⟩, hu⟩
      exact ⟨c, hc, hn, k', hk, rfl, hu⟩
  rw [entries, Slots.find?_eq, ← hstore]
  exact isJoin_of_isLUB (isLUB_get_remapped s r n (slotOf k))

/-- `t` is `s` under new names: each place holds the join of all that goes there. -/
structure JoinsPreimages (r : Renamer) (s t : TransformSet) : Prop where
  /-- The classes are those that some class goes to. -/
  contains : ∀ n, t.contains n = true ↔ ∃ c ∈ s.classes.toList, r.classTarget c.name = n
  /-- A class, all its fields and all its methods are asked for the join of what is
      asked of the classes that go there. -/
  whole : ∀ n, ∀ slot ∈ [Slot.own, .allFields, .allMethods],
    IsLUB {u | ∃ c ∈ s.classes.toList, r.classTarget c.name = n ∧ c.transforms.get slot = u}
      (t.get n slot)
  /-- The entry of a field is the join of the entries that go there. -/
  field : ∀ n f, IsJoin
    {u | ∃ c ∈ s.classes.toList, r.classTarget c.name = n ∧
      ∃ f', r.fieldTarget c.name f' = f ∧ c.transforms.fields.find? f' = some u}
    ((t.entry n).transforms.fields.find? f)
  /-- The entry of a method is the join of the entries that go there. -/
  method : ∀ n m, IsJoin
    {u | ∃ c ∈ s.classes.toList, r.classTarget c.name = n ∧
      ∃ m', r.methodTarget c.name m' = m ∧ c.transforms.methods.find? m' = some u}
    ((t.entry n).transforms.methods.find? m)
  /-- The classes are held under their own names, and none has inherited. -/
  named : ∀ n c, t.find? n = some c → c.name = n ∧ c.complete = false

/-- A set under new names holds, in each place, the join of all that goes there. -/
theorem remap_joins_preimages (s : TransformSet) (r : Renamer) :
    JoinsPreimages r s (s.remap r).1 where
  contains _ := contains_remapped_iff
  whole n slot hslot := by
    have h := isLUB_get_remapped s r n slot
    have htarget (c : String) (slot' : Slot) : r.slotTarget c slot' = slot ↔ slot' = slot := by
      simp only [List.mem_cons, List.not_mem_nil, or_false] at hslot
      rcases hslot with rfl | rfl | rfl <;> cases slot' <;> simp [Renamer.slotTarget]
    simp only [asksAt, htarget, exists_eq_left] at h
    exact h
  field := isJoin_stored .field (fun _ _ => rfl)
    (fun c slot' f => by cases slot' <;> simp [Renamer.slotTarget]) s
  method := isJoin_stored .method (fun _ _ => rfl)
    (fun c slot' m => by cases slot' <;> simp [Renamer.slotTarget]) s
  named n c hc := by
    have := isComplete_remapped (s := s) (r := r) n
    rw [isComplete, entry, show (s.remapped r).find? n = some c from hc] at this
    exact ⟨name_of_find? hc, this⟩

/-- Two classes meet, and a new name of a field meets an old one. -/
example :
    let s := ((∅ : TransformSet).join "a/A" (.field "f") ⟨.toPublic, .keep⟩).join
      "a/B" (.field "g") ⟨.keep, .remove⟩
    let r := { Renamer.none with
      newClass := fun n => if n = "a/B" then some "a/A" else none
      newField := fun _ f => if f = "f" then some "g" else none }
    (s.remap r).1.get "a/A" (.field "g") = ⟨.toPublic, .remove⟩ := by
  decide

end TransformSet

end Openness
