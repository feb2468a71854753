import Openness.Proofs.Completion.Completed
import Openness.Proofs.Completion.Run
import Openness.Proofs.TransformOrder

/-!
# Joins along override paths

What a method of a class holds after completion, said without the order in which
classes inherit: the join of what the set asked of the method in all classes
that can be reached by going up from class to class, as long as the class is not
complete and overrides the method of the parent (`Hierarchy.heritage`).

* `TransformSet.Completed.isLUB`: completion joins along the override paths, in
  any set and for any classes;
* `TransformSet.complete_joins_along_overrides`: the same for a set without
  complete classes, with all that does not change.

A look-up falls back to what is asked of all methods only where there is no
entry. An inherited entry takes the place of that, so a look-up can lose by
completion; `TransformSet.lookup_le_complete_iff` says exactly when.
-/

namespace Openness

namespace Hierarchy

/-- What is asked of a method goes from the parent `p` down to the class `c`: the
    class is not settled and overrides the method. -/
def Passes (h : Hierarchy) (settled : String → Bool) (m : Signature) (c p : ClassHeader) : Prop :=
  settled c.name = false ∧ h.IsParent p c ∧ c.overrides m p = true

/-- What a set asks of a method in the classes that it is passed on from. -/
def heritage (h : Hierarchy) (s : TransformSet) (m : Signature) (c : ClassHeader) :
    Set Transform :=
  {t | ∃ d, Relation.ReflTransGen (h.Passes s.isComplete m) c d ∧ s.get d.name (.method m) = t}

theorem get_mem_heritage (h : Hierarchy) (s : TransformSet) (m : Signature) (c : ClassHeader) :
    s.get c.name (.method m) ∈ h.heritage s m c :=
  ⟨c, .refl, rfl⟩

theorem heritage_subset {h : Hierarchy} {s : TransformSet} {m : Signature} {c p : ClassHeader}
    (hp : h.Passes s.isComplete m c p) : h.heritage s m p ⊆ h.heritage s m c :=
  fun _ ⟨d, hd, ht⟩ => ⟨d, .head hp hd, ht⟩

end Hierarchy

namespace TransformSet

variable {h : Hierarchy} {s t : TransformSet} {roots : List ClassHeader} {c : ClassHeader}
  {m : Signature}

theorem get_of_find?_eq {n : String} (e : s.find? n = t.find? n) (slot : Slot) :
    s.get n slot = t.get n slot := by
  rw [get, get, entry_of_find?_eq e]

/-- What a class inherits for a method is the least transform above what its
    parents have for the method, if the class overrides it. -/
theorem asked_inherited_le_iff {u : Transform} :
    Slots.asked m (t.inherited h c) ≤ u ↔
      ∀ p, h.IsParent p c → c.overrides m p = true → t.get p.name (.method m) ≤ u := by
  rw [Slots.asked_le_iff]
  constructor
  · intro hu p hp ho
    by_cases hn : t.get p.name (.method m) = .neutral
    · exact hn ▸ Transform.neutral_le u
    · refine hu (m, t.get p.name (.method m)) (List.mem_flatMap.2 ⟨p, hp, ?_⟩) rfl
      exact List.mem_filter.2 ⟨Slots.mem_toList.2 ⟨rfl, hn⟩, ho⟩
  · rintro hu ⟨_, v⟩ he rfl
    obtain ⟨p, hp, he⟩ := List.mem_flatMap.1 he
    obtain ⟨he, ho⟩ := List.mem_filter.1 he
    have hv : t.get p.name (.method _) = v := (Slots.mem_toList.1 he).1
    exact hv ▸ hu p hp ho

namespace Completed

theorem get_method (ht : Completed h s roots t) (hc : h.Due s.isComplete roots c)
    (m : Signature) :
    t.get c.name (.method m) =
      max (s.get c.name (.method m)) (Slots.asked m (t.inherited h c)) := by
  rw [get, entry, ht.due c hc]
  exact Slots.get_joinAll ..

/-- Completion changes nothing but methods. -/
theorem get_of_not_method (ht : Completed h s roots t) (n : String) {slot : Slot}
    (hslot : ∀ m, slot ≠ .method m) : t.get n slot = s.get n slot := by
  obtain ⟨c, hc, rfl⟩ | same := ht.due_or_find?_eq n
  · rw [get, entry, ht.due c hc]
    cases slot with
    | own => rfl
    | allFields => rfl
    | allMethods => rfl
    | field f => rfl
    | method m => exact absurd rfl (hslot m)
  · exact get_of_find?_eq same slot

theorem get_le (ht : Completed h s roots t) (n : String) (slot : Slot) :
    s.get n slot ≤ t.get n slot := by
  obtain ⟨c, hc, rfl⟩ | same := ht.due_or_find?_eq n
  · cases slot with
    | method m =>
      rw [ht.get_method hc]
      exact Transform.le_max_left ..
    | _ => exact (ht.get_of_not_method _ (by simp)).ge
  · exact (get_of_find?_eq same slot).ge

/-- A class that was complete ends with its own heritage, which is what it had. -/
theorem isLUB_of_isComplete (ht : Completed h s roots t) (hc : s.isComplete c.name = true)
    (m : Signature) : IsLUB (h.heritage s m c) (t.get c.name (.method m)) := by
  have same := get_of_find?_eq (ht.find?_of_isComplete hc) (.method m)
  refine ⟨?_, fun u hu => same ▸ hu (h.get_mem_heritage s m c)⟩
  rintro _ ⟨d, hd, rfl⟩
  obtain rfl | ⟨p, hp, -⟩ := hd.cases_head
  · exact same.ge
  · rw [hp.1] at hc
    cases hc

/-- Completion joins along the override paths. -/
theorem isLUB (acyclic : h.Acyclic) (ht : Completed h s roots t)
    (hc : h.Due s.isComplete roots c) (m : Signature) :
    IsLUB (h.heritage s m c) (t.get c.name (.method m)) := by
  induction c using acyclic.induction with
  | step c ih =>
    have parent {p : ClassHeader} (hp : h.IsParent p c) :
        IsLUB (h.heritage s m p) (t.get p.name (.method m)) := by
      cases hs : s.isComplete p.name with
      | true => exact ht.isLUB_of_isComplete hs m
      | false => exact ih p hp (hc.parent hp hs)
    have le_iff (u : Transform) : t.get c.name (.method m) ≤ u ↔
        s.get c.name (.method m) ≤ u ∧
          ∀ p, h.IsParent p c → c.overrides m p = true → t.get p.name (.method m) ≤ u := by
      rw [ht.get_method hc, Transform.max_le_iff, asked_inherited_le_iff]
    -- A path from the class is empty, or goes on from one of its parents.
    constructor
    · rintro _ ⟨d, hd, rfl⟩
      obtain rfl | ⟨p, hp, hd⟩ := hd.cases_head
      · exact ((le_iff _).1 le_rfl).1
      · exact ((parent hp.2.1).1 ⟨d, hd, rfl⟩).trans (((le_iff _).1 le_rfl).2 p hp.2.1 hp.2.2)
    · intro u hu
      refine (le_iff u).2 ⟨hu (h.get_mem_heritage s m c), fun p hp ho => ?_⟩
      exact (parent hp).2 fun v hv => hu (Hierarchy.heritage_subset ⟨hc.unsettled, hp, ho⟩ hv)

end Completed

end TransformSet

/-! ## Sets without complete classes -/

namespace Hierarchy

/-- The class is one of some classes or a known ancestor of one. -/
def AtOrAbove (h : Hierarchy) (roots : List ClassHeader) (c : ClassHeader) : Prop :=
  ∃ r ∈ roots, Relation.ReflTransGen h.IsParent c r

/-- The class `c` overrides the method of the known parent `p`. -/
def OverridesFrom (h : Hierarchy) (m : Signature) (c p : ClassHeader) : Prop :=
  h.IsParent p c ∧ c.overrides m p = true

variable {h : Hierarchy} {settled : String → Bool} {roots : List ClassHeader} {c : ClassHeader}

/-- With nothing settled, all ancestors are due. -/
theorem due_iff_atOrAbove (fresh : ∀ n, settled n = false) :
    h.Due settled roots c ↔ h.AtOrAbove roots c := by
  constructor
  · intro hc
    induction hc with
    | @root r hr _ => exact ⟨r, hr, .refl⟩
    | parent _ hp _ ih =>
      obtain ⟨r, hr, hc⟩ := ih
      exact ⟨r, hr, .head hp hc⟩
  · rintro ⟨r, hr, hc⟩
    induction hc using Relation.ReflTransGen.head_induction_on with
    | refl => exact .root hr (fresh _)
    | head hp _ ih => exact ih.parent hp (fresh _)

theorem passes_eq_overridesFrom (fresh : ∀ n, settled n = false) (m : Signature) :
    h.Passes settled m = h.OverridesFrom m := by
  funext c p
  simp [Passes, OverridesFrom, fresh]

end Hierarchy

namespace TransformSet

/-- `t` is `s` after the classes at or above some others have inherited along all
    override paths. -/
structure JoinsAlongOverrides (h : Hierarchy) (s : TransformSet) (roots : List ClassHeader)
    (t : TransformSet) : Prop where
  /-- The entry for a method is the join of those of `s` along the override
      paths, and there is none if that asks for nothing. -/
  entry : ∀ c, h.AtOrAbove roots c → ∀ m, ∃ j,
    IsLUB {u | ∃ d, Relation.ReflTransGen (h.OverridesFrom m) c d ∧
      s.get d.name (.method m) = u} j ∧
    (t.entry c.name).transforms.methods.find? m = if j = .neutral then none else some j
  /-- The classes are there and complete. -/
  complete : ∀ c, h.AtOrAbove roots c → ∃ e, t.find? c.name = some e ∧ e.complete = true
  /-- No class changes but in its methods. -/
  frame : ∀ n slot, (∀ m, slot ≠ .method m) → t.get n slot = s.get n slot
  /-- No other class changes at all. -/
  other : ∀ n, (∀ c, h.AtOrAbove roots c → c.name ≠ n) → t.find? n = s.find? n

variable {h : Hierarchy} {s t : TransformSet} {roots : List ClassHeader}

theorem Completed.joinsAlongOverrides (acyclic : h.Acyclic) (ht : Completed h s roots t)
    (fresh : ∀ n, s.isComplete n = false) : JoinsAlongOverrides h s roots t where
  entry c hc m := by
    have hc := (Hierarchy.due_iff_atOrAbove fresh).2 hc
    refine ⟨t.get c.name (.method m), ?_, Slots.find?_eq ..⟩
    rw [← Hierarchy.passes_eq_overridesFrom fresh]
    exact ht.isLUB acyclic hc m
  complete c hc := ⟨_, ht.due c ((Hierarchy.due_iff_atOrAbove fresh).2 hc), rfl⟩
  frame n _ hslot := ht.get_of_not_method n hslot
  other n hn := ht.other n fun c hc => hn c ((Hierarchy.due_iff_atOrAbove fresh).1 hc)

/-- In an acyclic hierarchy, completing a class or all classes of a set without
    complete classes ends, and joins along the override paths. -/
theorem complete_joins_along_overrides (acyclic : h.Acyclic)
    (fresh : ∀ n, s.isComplete n = false) :
    (∀ c, h.Knows c →
      Completes h s c (s.complete h c).1 (s.complete h c).2 ∧
        JoinsAlongOverrides h s [c] (s.complete h c).1) ∧
    CompletesEach h s s.classes.names (s.completeAll h).1 (s.completeAll h).2 ∧
      JoinsAlongOverrides h s (s.classes.names.filterMap h.find?) (s.completeAll h).1 := by
  refine ⟨fun c hc => ⟨(completes_iff acyclic hc).2 rfl, ?_⟩, ?_, ?_⟩
  · exact (Completed.complete acyclic hc s).joinsAlongOverrides acyclic fresh
  · exact (completesEach_iff acyclic).2 (completeAll_eq s h).symm
  · exact (Completed.completeFrom acyclic (fun _ => Hierarchy.knows_of_mem_filterMap)
      s).joinsAlongOverrides acyclic fresh

theorem isComplete_eq_false (hs : ∀ e ∈ s.classes.toList, e.complete = false) (n : String) :
    s.isComplete n = false := by
  rw [isComplete, entry]
  cases hn : s.find? n with
  | none => rfl
  | some e =>
    refine hs e (Roster.mem_toList.2 ?_)
    rw [show Named.name e = n from name_of_find? hn]
    exact hn

/-- Something is asked of `run` in the top and on the right of the diamond. -/
def topAndRight : TransformSet :=
  ((∅ : TransformSet).join "a/Top" (.method Hierarchy.run) ⟨.toProtected, .keep⟩).join
    "a/Right" (.method Hierarchy.run) ⟨.keep, .add⟩

open Hierarchy in
/-- The bottom of the diamond gets what is asked of the top and of the right. -/
theorem bottom_joins_along_overrides :
    diamond.Acyclic ∧ (∀ n, topAndRight.isComplete n = false) ∧
      diamond.Knows (runner "a/Bottom" ["a/Left", "a/Right"]) ∧
      JoinsAlongOverrides diamond topAndRight [runner "a/Bottom" ["a/Left", "a/Right"]]
        (topAndRight.complete diamond (runner "a/Bottom" ["a/Left", "a/Right"])).1 ∧
      (topAndRight.complete diamond (runner "a/Bottom" ["a/Left", "a/Right"])).1.get
        "a/Bottom" (.method run) = ⟨.toProtected, .add⟩ := by
  have fresh : ∀ n, topAndRight.isComplete n = false := isComplete_eq_false (by decide)
  have knows : diamond.Knows (runner "a/Bottom" ["a/Left", "a/Right"]) := by decide
  exact ⟨diamond_acyclic, fresh, knows,
    ((complete_joins_along_overrides diamond_acyclic fresh).1 _ knows).2, by decide⟩

end TransformSet

end Openness
