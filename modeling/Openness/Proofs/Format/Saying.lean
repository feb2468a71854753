import Mathlib.Data.List.Basic
import Mathlib.Order.Basic
import Openness.Format.Writer
import Openness.Proofs.Contents

/-!
# What directives say together

Doing what directives say, one after the other (`TransformSet.follow`), comes to
the same for all lists of the same directives: a class is held afterwards if it
was before or if one of them is for it, and a slot asks for the least transform
above what it asked for before and what they ask of it. Neither depends on how
often a directive is in the list, or where.

* `TransformSet.get_follow_le_iff`, `TransformSet.contains_follow_iff`: what a set
  holds after directives;
* `TransformSet.follow_congr`: the same directives make the same of a set;
* `TransformSet.mem_directives`: a set says what is asked in its slots;
* `TransformSet.follow_directives`: what a set says makes it up again, but for the
  classes that nothing is asked of.
-/

namespace Openness

namespace TransformSet

open Format (Directive)

/-- Does what directives say, one after the other. -/
def follow (s : TransformSet) (ds : List Directive) : TransformSet :=
  ds.foldl (fun s d => d.apply s) s

@[simp] theorem follow_nil (s : TransformSet) : s.follow [] = s := rfl

@[simp] theorem follow_cons (s : TransformSet) (d : Directive) (ds : List Directive) :
    s.follow (d :: ds) = (d.apply s).follow ds := rfl

/-- Directives may be followed in two parts. -/
theorem follow_append (s : TransformSet) (ds ds' : List Directive) :
    s.follow (ds ++ ds') = (s.follow ds).follow ds' :=
  List.foldl_append

/-! ## One directive -/

/-- A slot is below a transform after a directive if it was before and, should it
    be the slot of the directive, the directive is. -/
theorem get_apply_le_iff {d : Directive} {s : TransformSet} {n : String} {slot : Slot}
    {t : Transform} :
    (d.apply s).get n slot ≤ t ↔
      s.get n slot ≤ t ∧ (d.className = n → d.slot = slot → d.transform ≤ t) := by
  rw [Directive.apply, get_join]
  by_cases h : n = d.className ∧ slot = d.slot
  · rw [if_pos h, Transform.max_le_iff, ← h.1, ← h.2]
    exact and_congr_right fun _ => ⟨fun ht _ _ => ht, fun ht => ht rfl rfl⟩
  · rw [if_neg h]
    exact ⟨fun hs => ⟨hs, fun hn hslot => absurd ⟨hn.symm, hslot.symm⟩ h⟩, And.left⟩

theorem contains_apply_iff {d : Directive} {s : TransformSet} {n : String} :
    (d.apply s).contains n = true ↔ s.contains n = true ∨ d.className = n :=
  contains_modify_iff

/-! ## Many directives -/

/-- After directives, a slot asks for the least transform above what it asked for
    before and what they ask of it. -/
theorem get_follow_le_iff {ds : List Directive} {s : TransformSet} {n : String} {slot : Slot}
    {t : Transform} :
    (s.follow ds).get n slot ≤ t ↔
      s.get n slot ≤ t ∧ ∀ d ∈ ds, d.className = n → d.slot = slot → d.transform ≤ t := by
  rw [follow]
  refine foldl_iff_forall (Q := fun s => s.get n slot ≤ t) (fun s d => ?_) s ds
  exact get_apply_le_iff

/-- After directives, a set holds the classes that it held before and those that
    they are for. -/
theorem contains_follow_iff {ds : List Directive} {s : TransformSet} {n : String} :
    (s.follow ds).contains n = true ↔ s.contains n = true ∨ ∃ d ∈ ds, d.className = n := by
  rw [follow]
  refine foldl_iff_exists (Q := fun s => s.contains n = true) (fun s d => ?_) s ds
  exact contains_apply_iff

/-- Directives leave the marks. -/
theorem isComplete_follow (s : TransformSet) (ds : List Directive) (n : String) :
    (s.follow ds).isComplete n = s.isComplete n := by
  rw [follow]
  refine foldl_keeps (V := fun s => s.isComplete n) (fun s d => ?_) s ds
  rw [Directive.apply, join, isComplete_modify]

/-- The same directives, in any order and number, make the same of a set. -/
theorem follow_congr (s : TransformSet) {ds ds' : List Directive} (h : ∀ d, d ∈ ds ↔ d ∈ ds') :
    s.follow ds = s.follow ds' := by
  refine ext_of_le_iff (fun n => ?_) (fun n slot u => ?_) fun n => ?_
  · simp only [contains_follow_iff, h]
  · simp only [get_follow_le_iff, h]
  · rw [isComplete_follow, isComplete_follow]

/-- Where directives leave something asked of a slot that nothing was asked of, one
    of them is for the slot. -/
theorem exists_mem_of_get_follow_ne {ds : List Directive} {n : String} {slot : Slot}
    (h : (follow ∅ ds).get n slot ≠ .neutral) :
    ∃ d ∈ ds, d.className = n ∧ d.slot = slot := by
  by_contra hno
  -- Otherwise nothing keeps the slot from being below the neutral transform.
  push Not at hno
  refine h (Transform.le_neutral_iff.1 (get_follow_le_iff.2 ⟨?_, fun d hd hn hslot => ?_⟩))
  · exact get_empty_le n slot _
  · exact absurd hslot (hno d hd hn)

/-- Directives that ask for something make up no empty class. -/
theorem isEmpty_of_mem_follow {ds : List Directive} (hds : ∀ d ∈ ds, d.transform ≠ .neutral)
    {c : ClassEntry} (hc : c ∈ (follow ∅ ds).classes.toList) : c.transforms.isEmpty = false := by
  have hc := mem_classes.1 hc
  -- The class is held because of a directive for it, and that asks for something.
  have hheld : (follow ∅ ds).contains c.name = true := Option.isSome_iff_exists.2 ⟨c, hc⟩
  obtain ⟨d, hd, hname⟩ := (contains_follow_iff.1 hheld).resolve_left Bool.false_ne_true
  have hle : d.transform ≤ (follow ∅ ds).get c.name d.slot :=
    (get_follow_le_iff.1 le_rfl).2 d hd hname rfl
  rw [← Bool.not_eq_true, ClassTransforms.isEmpty_iff]
  intro hempty
  rw [get_of_find? hc, hempty] at hle
  exact hds d hd (Transform.le_neutral_iff.1 hle)

/-! ## What a set says -/

/-- A set says what is asked in its slots. -/
theorem mem_directives {s : TransformSet} {d : Directive} :
    d ∈ s.directives ↔ s.get d.className d.slot = d.transform ∧ d.transform ≠ .neutral := by
  simp only [directives, List.mem_flatMap, ClassEntry.directives, List.mem_map, Prod.exists]
  constructor
  · rintro ⟨c, hc, slot, t, he, rfl⟩
    obtain ⟨hget, ht⟩ := ClassTransforms.mem_entries.1 he
    exact ⟨(get_of_find? (mem_classes.1 hc) slot).trans hget, ht⟩
  · rintro ⟨hget, ht⟩
    obtain ⟨c, hc⟩ := Option.isSome_iff_exists.1 (contains_of_get_ne (hget.trans_ne ht))
    have hname : c.name = d.className := name_of_find? hc
    refine ⟨c, mem_classes.2 (hname.symm ▸ hc), d.slot, d.transform, ?_, ?_⟩
    · exact ClassTransforms.mem_entries.2 ⟨(get_of_find? hc d.slot).symm.trans hget, ht⟩
    · rw [hname]

/-- What a set says is a matter of its contents. -/
theorem directives_eq (s : TransformSet) :
    s.directives = s.contents.toList.flatMap fun e =>
      e.2.entries.map fun x => ⟨x.2, e.1, x.1⟩ := by
  have hclasses : s.classes.toList = s.classes.byName.toList.map Prod.snd := rfl
  have hcontents : s.contents.toList =
      s.classes.byName.toList.map fun e => (e.1, e.2.transforms) := rfl
  rw [directives, hclasses, hcontents, List.flatMap_map, List.flatMap_map]
  refine List.flatMap_congr fun e he => ?_
  have hname : e.2.name = e.1 := s.classes.named e.1 e.2 (SortedMap.mem_toList.1 he)
  rw [ClassEntry.directives, hname]

/-- Equal sets say the same. -/
theorem directives_congr {s t : TransformSet} (h : (s == t) = true) :
    s.directives = t.directives := by
  have hcontents : s.contents = t.contents := of_decide_eq_true h
  rw [directives_eq, hcontents, ← directives_eq]

/-- Doing what a set says makes up the set, but for the classes that nothing is
    asked of. -/
theorem follow_directives (s : TransformSet) : (follow ∅ s.directives == s.trim) = true := by
  -- Both are the least transform above the same ones.
  have hget (n : String) (slot : Slot) : (follow ∅ s.directives).get n slot = s.get n slot := by
    refine eq_of_forall_ge_iff fun t => ?_
    rw [get_follow_le_iff]
    constructor
    · rintro ⟨-, h⟩
      by_cases hslot : s.get n slot = .neutral
      · exact hslot ▸ Transform.neutral_le t
      · exact h ⟨s.get n slot, n, slot⟩ (mem_directives.2 ⟨rfl, hslot⟩) rfl rfl
    · intro h
      refine ⟨get_empty_le n slot t, ?_⟩
      rintro d hd rfl rfl
      exact (mem_directives.1 hd).1 ▸ h
  refine beq_iff_get.2 ⟨fun n => ?_, fun n slot => (hget n slot).trans (s.get_trim n slot).symm⟩
  rw [Bool.eq_iff_iff, contains_follow_iff, contains_trim_iff]
  constructor
  · rintro (h | ⟨d, hd, rfl⟩)
    · cases h
    · obtain ⟨hslot, ht⟩ := mem_directives.1 hd
      exact ⟨d.slot, hslot.trans_ne ht⟩
  · rintro ⟨slot, hslot⟩
    exact .inr ⟨⟨s.get n slot, n, slot⟩, mem_directives.2 ⟨rfl, hslot⟩, rfl⟩

end TransformSet

end Openness
