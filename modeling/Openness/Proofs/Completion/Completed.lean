import Openness.Proofs.Completion.Recursion

/-!
# What completion does to a set

Completing some classes concerns those that are *due* (`Hierarchy.Due`): what is
reached from them by going up through classes that are not complete. A complete
class hides its ancestors.

`TransformSet.Completed` says what becomes of a set. Nothing changes but the
classes that are due, and each of these ends with its own entries joined with
what its parents have *in the end*. The order in which the classes inherit does
not occur in this, since a parent is complete when it is read and does not
change any more. So in an acyclic hierarchy

* completion does what is said (`Completed.complete`, `Completed.completeFrom`);
* completing twice is completing both at once (`Completed.append`);
* what is said leaves no choice (`Completed.unique`).
-/

namespace Openness

namespace Hierarchy

/-- The classes to complete for the sake of some classes: those that are not
    settled, and their parents in turn. -/
inductive Due (h : Hierarchy) (settled : String → Bool) (roots : List ClassHeader) :
    ClassHeader → Prop
  | root {c : ClassHeader} : c ∈ roots → settled c.name = false → Due h settled roots c
  | parent {c p : ClassHeader} :
      Due h settled roots c → h.IsParent p c → settled p.name = false → Due h settled roots p

namespace Due

variable {h : Hierarchy} {settled : String → Bool} {roots roots' : List ClassHeader}
  {c d : ClassHeader}

theorem unsettled (hc : h.Due settled roots c) : settled c.name = false := by
  cases hc with
  | root _ hs => exact hs
  | parent _ _ hs => exact hs

theorem knows (hroots : ∀ r ∈ roots, h.Knows r) (hc : h.Due settled roots c) : h.Knows c := by
  cases hc with
  | root hr _ => exact hroots c hr
  | parent _ hp _ => exact hp.knows

theorem mono (hsub : ∀ r ∈ roots, settled r.name = false → h.Due settled roots' r)
    (hc : h.Due settled roots c) : h.Due settled roots' c := by
  induction hc with
  | root hr hs => exact hsub _ hr hs
  | parent _ hp hs ih => exact ih.parent hp hs

theorem append_iff :
    h.Due settled (roots ++ roots') c ↔ h.Due settled roots c ∨ h.Due settled roots' c := by
  constructor
  · intro hc
    induction hc with
    | root hr hs => exact (List.mem_append.1 hr).imp (.root · hs) (.root · hs)
    | parent _ hp hs ih => exact ih.imp (·.parent hp hs) (·.parent hp hs)
  · rintro (hc | hc)
    · exact hc.mono fun r hr hs => .root (List.mem_append_left _ hr) hs
    · exact hc.mono fun r hr hs => .root (List.mem_append_right _ hr) hs

/-- Whoever is due for a class is that class or due for its parents. -/
theorem singleton_iff (hd : settled d.name = false) :
    h.Due settled [d] c ↔ c = d ∨ h.Due settled (h.parents d) c := by
  constructor
  · intro hc
    induction hc with
    | root hr _ => exact .inl (List.mem_singleton.1 hr)
    | parent _ hp hs ih =>
      obtain rfl | hc := ih
      · exact .inr (.root hp hs)
      · exact .inr (hc.parent hp hs)
  · have hroot : h.Due settled [d] d := .root List.mem_cons_self hd
    rintro (rfl | hc)
    · exact hroot
    · exact hc.mono fun p hp hs => hroot.parent hp hs

/-- Where all classes are settled, nothing is due. -/
theorem not_of_settled (hroots : ∀ r ∈ roots, settled r.name = true) :
    ¬h.Due settled roots c := by
  intro hc
  induction hc with
  | root hr hs =>
    rw [hroots _ hr] at hs
    cases hs
  | parent _ _ _ ih => exact ih

theorem isAncestor (hc : h.Due settled (h.parents d) c) : h.IsAncestor c d := by
  induction hc with
  | root hp _ => exact .single hp
  | parent _ hp _ ih => exact .head hp ih

end Due

end Hierarchy

namespace TransformSet

/-- `t` is `s` after some classes were completed: those that are due have
    inherited from their parents as these are in `t`, and everything else is as
    in `s`. -/
structure Completed (h : Hierarchy) (s : TransformSet) (roots : List ClassHeader)
    (t : TransformSet) : Prop where
  due : ∀ c, h.Due s.isComplete roots c →
    t.find? c.name = some ⟨c.name, { (s.entry c.name).transforms with
      methods := (s.entry c.name).transforms.methods.joinAll (t.inherited h c) }, true⟩
  other : ∀ n, (∀ c, h.Due s.isComplete roots c → c.name ≠ n) → t.find? n = s.find? n

variable {h : Hierarchy} {s t u : TransformSet} {roots roots' : List ClassHeader}
  {c : ClassHeader}

theorem entry_of_find?_eq {n : String} (e : s.find? n = t.find? n) : s.entry n = t.entry n := by
  rw [entry, entry, e]

theorem contains_of_find?_eq {n : String} (e : s.find? n = t.find? n) :
    s.contains n = t.contains n :=
  congrArg Option.isSome e

/-- What a class inherits is a matter of its parents. -/
theorem inherited_congr (e : ∀ p, h.IsParent p c → s.find? p.name = t.find? p.name) :
    s.inherited h c = t.inherited h c := by
  rw [inherited, inherited]
  exact List.flatMap_congr fun p hp => by rw [entry_of_find?_eq (e p hp)]

/-- A class and its ancestors inherit the same before and after the class has inherited. -/
theorem inherited_inherit (acyclic : h.Acyclic) (hc : h.Knows c) {d : ClassHeader}
    (hd : d = c ∨ h.IsAncestor d c) : (t.inherit h c).inherited h d = t.inherited h d := by
  refine inherited_congr fun p hp => ?_
  have hp : h.IsAncestor p c := by
    obtain rfl | hd := hd
    · exact .single hp
    · exact .head hp hd
  rw [find?_inherit, if_neg (hp.name_ne acyclic hc)]

namespace Completed

theorem isComplete_of_due (ht : Completed h s roots t) (hc : h.Due s.isComplete roots c) :
    t.isComplete c.name = true := by
  rw [isComplete, entry, ht.due c hc]
  rfl

theorem find?_of_isComplete (ht : Completed h s roots t) {n : String}
    (hn : s.isComplete n = true) : t.find? n = s.find? n := by
  refine ht.other n fun c hc e => ?_
  have := hc.unsettled
  rw [e, hn] at this
  cases this

/-- A name is that of a class that is due, or means what it meant before. -/
theorem due_or_find?_eq (ht : Completed h s roots t) (n : String) :
    (∃ c, h.Due s.isComplete roots c ∧ c.name = n) ∨ t.find? n = s.find? n := by
  by_cases hn : ∃ c, h.Due s.isComplete roots c ∧ c.name = n
  · exact .inl hn
  · exact .inr (ht.other n fun c hc e => hn ⟨c, hc, e⟩)

/-- A class that was due is held. -/
theorem contains_of_due (ht : Completed h s roots t) (hc : h.Due s.isComplete roots c) :
    t.contains c.name = true :=
  Option.isSome_iff_exists.2 ⟨_, ht.due c hc⟩

/-- The classes held are those that were held before and those that were due. -/
theorem contains_iff (ht : Completed h s roots t) {n : String} :
    t.contains n = true ↔
      s.contains n = true ∨ ∃ c, h.Due s.isComplete roots c ∧ c.name = n := by
  obtain ⟨c, hc, rfl⟩ | same := ht.due_or_find?_eq n
  · exact iff_of_true (ht.contains_of_due hc) (.inr ⟨c, hc, rfl⟩)
  · rw [contains_of_find?_eq same]
    refine ⟨.inl, ?_⟩
    rintro (hn | ⟨c, hc, rfl⟩)
    · exact hn
    · exact contains_of_find?_eq same ▸ ht.contains_of_due hc

/-- Completion takes no mark away. -/
theorem isComplete_mono (ht : Completed h s roots t) {n : String} (hn : s.isComplete n = true) :
    t.isComplete n = true := by
  rw [isComplete_of_find?_eq (ht.find?_of_isComplete hn), hn]

/-- A class that is not complete in the end is not due, and as before. -/
theorem find?_of_not_isComplete (ht : Completed h s roots t) {n : String}
    (hn : t.isComplete n = false) : t.find? n = s.find? n := by
  refine ht.other n fun c hc e => ?_
  have := ht.isComplete_of_due hc
  rw [e, hn] at this
  cases this

/-- The parents of a class that was due are complete. -/
theorem isComplete_parent (ht : Completed h s roots t) (hc : h.Due s.isComplete roots c)
    {p : ClassHeader} (hp : h.IsParent p c) : t.isComplete p.name = true := by
  cases hs : s.isComplete p.name with
  | true => exact ht.isComplete_mono hs
  | false => exact ht.isComplete_of_due (hc.parent hp hs)

/-- Who is due in the end was so before. -/
theorem due_of_due (ht : Completed h s roots t) (hc : h.Due t.isComplete roots' c) :
    h.Due s.isComplete roots' c := by
  have before {n : String} (hn : t.isComplete n = false) : s.isComplete n = false := by
    rw [← hn]
    exact (isComplete_of_find?_eq (ht.find?_of_not_isComplete hn)).symm
  induction hc with
  | root hr hs => exact .root hr (before hs)
  | parent _ hp hs ih => exact ih.parent hp (before hs)

/-- Who was due for some other classes has been completed, or still is due. -/
theorem due_or_due (ht : Completed h s roots t) (hroots : ∀ r ∈ roots, h.Knows r)
    (hroots' : ∀ r ∈ roots', h.Knows r) (hc : h.Due s.isComplete roots' c) :
    h.Due s.isComplete roots c ∨ h.Due t.isComplete roots' c := by
  -- A class that the first call does not reach is as incomplete as before.
  have still {d : ClassHeader} (hd : h.Knows d) (hs : s.isComplete d.name = false)
      (hne : ¬h.Due s.isComplete roots d) : t.isComplete d.name = false := by
    rw [← hs]
    refine isComplete_of_find?_eq (ht.other d.name fun c hc e => hne ?_)
    exact (hc.knows hroots).eq hd e ▸ hc
  induction hc with
  | @root d hr hs =>
    by_cases hd : h.Due s.isComplete roots d
    · exact .inl hd
    · exact .inr (.root hr (still (hroots' d hr) hs hd))
  | @parent _ p _ hp hs ih =>
    obtain hc | hc := ih
    · exact .inl (hc.parent hp hs)
    by_cases hd : h.Due s.isComplete roots p
    · exact .inl hd
    · exact .inr (hc.parent hp (still hp.knows hs hd))

/-! ## Composition -/

/-- Complete classes leave nothing to do. -/
theorem of_settled (hroots : ∀ r ∈ roots, s.isComplete r.name = true) : Completed h s roots s where
  due _ hc := absurd hc (Hierarchy.Due.not_of_settled hroots)
  other _ _ := rfl

/-- Completing some classes and then others is completing all of them. -/
theorem append (ht : Completed h s roots t) (hu : Completed h t roots' u)
    (hroots : ∀ r ∈ roots, h.Knows r) (hroots' : ∀ r ∈ roots', h.Knows r) :
    Completed h s (roots ++ roots') u where
  due c hc := by
    obtain hc | hc : h.Due s.isComplete roots c ∨ h.Due t.isComplete roots' c := by
      rcases Hierarchy.Due.append_iff.1 hc with hc | hc
      · exact .inl hc
      · exact ht.due_or_due hroots hroots' hc
    · -- The first call completed the class and its parents, and the second one
      -- leaves complete classes alone.
      have inherited : t.inherited h c = u.inherited h c := inherited_congr fun p hp =>
        (hu.find?_of_isComplete (ht.isComplete_parent hc hp)).symm
      rw [hu.find?_of_isComplete (ht.isComplete_of_due hc), ht.due c hc, inherited]
    · -- The first call did not get to the class.
      rw [hu.due c hc, entry_of_find?_eq (ht.find?_of_not_isComplete hc.unsettled)]
  other n hn := by
    rw [hu.other n fun c hc => hn c (Hierarchy.Due.append_iff.2 (.inr (ht.due_of_due hc))),
      ht.other n fun c hc => hn c (Hierarchy.Due.append_iff.2 (.inl hc))]

/-- A class inherits once its parents are complete. -/
theorem inherit (acyclic : h.Acyclic) (ht : Completed h s (h.parents c) t) (hc : h.Knows c)
    (hs : s.isComplete c.name = false) : Completed h s [c] (t.inherit h c) := by
  have entry : t.entry c.name = s.entry c.name :=
    entry_of_find?_eq (ht.other c.name fun d hd => hd.isAncestor.name_ne acyclic hc)
  refine ⟨fun d hd => ?_, fun n hn => ?_⟩
  · obtain rfl | hd := (Hierarchy.Due.singleton_iff hs).1 hd
    · rw [inherited_inherit acyclic hc (.inl rfl), find?_inherit, if_pos rfl, entry]
    · rw [inherited_inherit acyclic hc (.inr hd.isAncestor), find?_inherit,
        if_neg (hd.isAncestor.name_ne acyclic hc), ht.due d hd]
  · have hnc : n ≠ c.name := fun e => hn c (.root List.mem_cons_self hs) e.symm
    rw [find?_inherit, if_neg hnc]
    exact ht.other n fun d hd => hn d ((Hierarchy.Due.singleton_iff hs).2 (.inr hd))

/-! ## Completion -/

/-- Completing some classes completes them and what is above them. -/
theorem completeFrom (acyclic : h.Acyclic) (hroots : ∀ r ∈ roots, h.Knows r) (s : TransformSet) :
    Completed h s roots (s.completeFrom h roots).1 :=
  completeFrom_induction (motive := fun s roots t _ => Completed h s roots t) acyclic of_settled
    (fun hc hs ht => ht.inherit acyclic hc hs) (fun hcs hds ht hu => ht.append hu hcs hds) hroots s

/-- Completing a class completes it and what is above it. -/
theorem complete (acyclic : h.Acyclic) (hc : h.Knows c) (s : TransformSet) :
    Completed h s [c] (s.complete h c).1 :=
  completeFrom acyclic (List.forall_mem_singleton.2 hc) s

/-- The classes that are due determine the outcome. -/
theorem unique (acyclic : h.Acyclic) (hroots : ∀ r ∈ roots, h.Knows r)
    (same : ∀ c, h.Due s.isComplete roots c ↔ h.Due s.isComplete roots' c)
    (ht : Completed h s roots t) (hu : Completed h s roots' u) : t = u := by
  have other {n : String} (hn : ∀ c, h.Due s.isComplete roots c → c.name ≠ n) :
      t.find? n = u.find? n := by
    rw [ht.other n hn, hu.other n fun c hc => hn c ((same c).2 hc)]
  -- By induction from the top: equal parents leave equal entries.
  have due (c : ClassHeader) (hc : h.Due s.isComplete roots c) :
      t.find? c.name = u.find? c.name := by
    induction c using acyclic.induction with
    | step c ih =>
      have inherited : t.inherited h c = u.inherited h c := inherited_congr fun p hp => by
        by_cases hd : h.Due s.isComplete roots p
        · exact ih p hp hd
        · refine other fun d hd' e => hd ?_
          exact (hd'.knows hroots).eq hp.knows e ▸ hd'
      rw [ht.due c hc, hu.due c ((same c).1 hc), inherited]
  have classes : t.classes = u.classes := Roster.ext_find? fun n => by
    by_cases hn : ∃ c, h.Due s.isComplete roots c ∧ c.name = n
    · obtain ⟨c, hc, rfl⟩ := hn
      exact due c hc
    · exact other fun c hc e => hn ⟨c, hc, e⟩
  cases t
  cases u
  exact congrArg TransformSet.mk classes

end Completed

end TransformSet

end Openness
