import Mathlib.Data.List.Basic
import Openness.Completion
import Openness.Proofs.Completion.Ancestry

/-!
# Completion as a recursion

Completion lists the classes first and lets them inherit afterwards. In an
acyclic hierarchy it can be done class by class as well, going up and coming
back:

* a complete class stays as it is (`TransformSet.complete_of_isComplete`);
* any other one inherits after its parents were completed
  (`TransformSet.complete_of_not_isComplete`);
* several classes are completed one after the other
  (`TransformSet.completeFrom_cons`).

So whatever is kept on these three ways holds of every completion
(`TransformSet.completeFrom_induction`).

The reason is that the order of the classes may be cut anywhere: what comes
after a cut is the order for a set in which the classes before the cut are
complete (`Hierarchy.ascend_append`, `TransformSet.isComplete_inheritAll`).
-/

namespace Openness

namespace Hierarchy

variable {h : Hierarchy}

/-- What is settled once the classes of a list are. -/
def settledAfter (settled : String → Bool) (order : List ClassHeader) (n : String) : Bool :=
  settled n || order.any (·.name = n)

/-- An order may be cut anywhere. -/
theorem ascend_append (h : Hierarchy) (settled : String → Bool) (bound : Nat)
    (order o : List ClassHeader) (c : ClassHeader) :
    h.ascend settled bound (order ++ o) c =
      order ++ h.ascend (settledAfter settled order) bound o c := by
  induction bound generalizing o c with
  | zero => rfl
  | succ bound ih =>
    have hparents : (h.parents c).foldl (h.ascend settled bound) (order ++ o) =
        order ++ (h.parents c).foldl (h.ascend (settledAfter settled order) bound) o :=
      List.foldl_hom (order ++ ·) ih
    -- On both sides the walk stops at the same classes: those that are settled,
    -- in `order`, or in `o`.
    simp only [ascend, settledAfter, List.any_append, Bool.or_assoc]
    split
    · rfl
    · rw [hparents, List.append_assoc]

theorem foldl_ascend_append (h : Hierarchy) (settled : String → Bool) (bound : Nat)
    (order : List ClassHeader) (cs : List ClassHeader) :
    cs.foldl (h.ascend settled bound) order =
      order ++ cs.foldl (h.ascend (settledAfter settled order) bound) [] := by
  have : cs.foldl (h.ascend settled bound) (order ++ []) =
      order ++ cs.foldl (h.ascend (settledAfter settled order) bound) [] :=
    List.foldl_hom (order ++ ·) (h.ascend_append settled bound order)
  rwa [List.append_nil] at this

/-- A bound above the number of ancestors is never met. -/
theorem ascend_bound (acyclic : h.Acyclic) (settled : String → Bool) {bound bound' : Nat}
    (order : List ClassHeader) {c : ClassHeader} (hc : h.height c < bound)
    (hc' : h.height c < bound') :
    h.ascend settled bound order c = h.ascend settled bound' order c := by
  induction bound generalizing bound' order c with
  | zero => exact absurd hc (Nat.not_lt_zero _)
  | succ bound ih =>
    obtain _ | bound' := bound'
    · exact absurd hc' (Nat.not_lt_zero _)
    -- The parents are lower, so that what is left of both bounds will do for them.
    have hparents : (h.parents c).foldl (h.ascend settled bound) order =
        (h.parents c).foldl (h.ascend settled bound') order := by
      refine List.foldl_ext _ _ _ fun o p hp => ?_
      have := height_lt acyclic hp
      exact ih o (by omega) (by omega)
    rw [ascend, ascend, hparents]

theorem completionOrder_cons (h : Hierarchy) (settled : String → Bool) (c : ClassHeader)
    (cs : List ClassHeader) :
    h.completionOrder settled (c :: cs) = h.completionOrder settled [c] ++
      h.completionOrder (settledAfter settled (h.completionOrder settled [c])) cs :=
  h.foldl_ascend_append settled (h.size + 1) _ cs

theorem completionOrder_of_settled {settled : String → Bool} {c : ClassHeader}
    (hc : settled c.name = true) : h.completionOrder settled [c] = [] := by
  simp [completionOrder, ascend, hc]

theorem completionOrder_of_not_settled (acyclic : h.Acyclic) {settled : String → Bool}
    {c : ClassHeader} (hc : settled c.name = false) :
    h.completionOrder settled [c] = h.completionOrder settled (h.parents c) ++ [c] := by
  have hparents : (h.parents c).foldl (h.ascend settled h.size) [] =
      h.completionOrder settled (h.parents c) := by
    refine List.foldl_ext _ _ _ fun o p hp => ?_
    have hlt := height_lt acyclic hp
    have := h.height_le_size c
    exact ascend_bound acyclic settled o (by omega) (by omega)
  rw [← hparents]
  simp [completionOrder, ascend, hc]

/-- A walk up from some classes meets these and known ones only. -/
theorem mem_foldl_ascend {settled : String → Bool} {bound : Nat} {cs order : List ClassHeader}
    {d : ClassHeader} (hd : d ∈ cs.foldl (h.ascend settled bound) order) :
    d ∈ order ∨ d ∈ cs ∨ h.Knows d := by
  induction bound generalizing cs order with
  | zero =>
    rw [List.foldl_fixed' (fun _ => rfl) cs] at hd
    exact .inl hd
  | succ bound ih =>
    induction cs generalizing order with
    | nil => exact .inl hd
    | cons c cs ihcs =>
      rcases ihcs hd with hd | hd | hd
      · -- The first class adds itself, after what a walk up from its parents meets.
        rw [ascend] at hd
        split at hd
        · exact .inl hd
        · rcases List.mem_append.1 hd with hd | hd
          · exact (ih hd).imp_right fun hd => .inr (hd.elim IsParent.knows id)
          · exact .inr (.inl (List.mem_singleton.1 hd ▸ List.mem_cons_self))
      · exact .inr (.inl (List.mem_cons_of_mem _ hd))
      · exact .inr (.inr hd)

/-- The classes to complete are some of those that are asked for, and known ones. -/
theorem mem_completionOrder {settled : String → Bool} {roots : List ClassHeader}
    {d : ClassHeader} (hd : d ∈ h.completionOrder settled roots) : d ∈ roots ∨ h.Knows d :=
  (mem_foldl_ascend hd).resolve_left List.not_mem_nil

end Hierarchy

namespace TransformSet

variable {h : Hierarchy} {s : TransformSet} {c : ClassHeader}

theorem isComplete_of_find?_eq {s t : TransformSet} {n : String} (e : s.find? n = t.find? n) :
    s.isComplete n = t.isComplete n := by
  rw [isComplete, isComplete, entry, entry, e]

theorem isComplete_inherit (s : TransformSet) (h : Hierarchy) (c : ClassHeader) (n : String) :
    (s.inherit h c).isComplete n = (s.isComplete n || decide (c.name = n)) := by
  rw [isComplete, entry, find?_inherit]
  split
  · rename_i hn
    simp [hn]
  · rename_i hn
    simp only [Ne.symm hn, decide_false, Bool.or_false]
    rfl

/-- The classes that inherited are complete, and no others besides those that
    were before. -/
theorem isComplete_inheritAll (h : Hierarchy) (l : List ClassHeader) (s : TransformSet) :
    (inheritAll h l s).1.isComplete = Hierarchy.settledAfter s.isComplete l := by
  induction l generalizing s with
  | nil =>
    funext n
    simp [inheritAll, Hierarchy.settledAfter]
  | cons c l ih =>
    funext n
    rw [inheritAll, ih, Hierarchy.settledAfter, isComplete_inherit, Bool.or_assoc]
    rfl

theorem inheritAll_append (h : Hierarchy) (l l' : List ClassHeader) (s : TransformSet) :
    inheritAll h (l ++ l') s =
      ((inheritAll h l' (inheritAll h l s).1).1,
        (inheritAll h l s).2 ++ (inheritAll h l' (inheritAll h l s).1).2) := by
  induction l generalizing s with
  | nil => rfl
  | cons c l ih =>
    rw [List.cons_append, inheritAll, ih]
    rfl

/-- Classes are completed one after the other. -/
theorem completeFrom_cons (s : TransformSet) (h : Hierarchy) (c : ClassHeader)
    (cs : List ClassHeader) :
    s.completeFrom h (c :: cs) =
      (((s.complete h c).1.completeFrom h cs).1,
        (s.complete h c).2 ++ ((s.complete h c).1.completeFrom h cs).2) := by
  rw [completeFrom, Hierarchy.completionOrder_cons, inheritAll_append]
  simp only [complete, completeFrom, isComplete_inheritAll]

/-- A complete class stays as it is. -/
theorem complete_of_isComplete (hc : s.isComplete c.name = true) : s.complete h c = (s, []) := by
  rw [complete, completeFrom, Hierarchy.completionOrder_of_settled hc]
  rfl

/-- A class inherits after its parents were completed. -/
theorem complete_of_not_isComplete (acyclic : h.Acyclic) (hc : s.isComplete c.name = false) :
    s.complete h c =
      ((s.completeFrom h (h.parents c)).1.inherit h c,
        (s.completeFrom h (h.parents c)).2 ++ [.completedClass c.name
          ((s.completeFrom h (h.parents c)).1.inherited h c).length]) := by
  rw [complete, completeFrom, Hierarchy.completionOrder_of_not_settled acyclic hc,
    inheritAll_append]
  rfl

/-- What holds where nothing is left to complete, of a class that inherits after its parents
    were completed, and of one completion after the other, holds of all completions. -/
theorem completeFrom_induction (acyclic : h.Acyclic)
    {motive : TransformSet → List ClassHeader → TransformSet → List Event → Prop}
    (settled : ∀ {s : TransformSet} {cs : List ClassHeader},
      (∀ c ∈ cs, s.isComplete c.name = true) → motive s cs s [])
    (inherit : ∀ {s t : TransformSet} {c : ClassHeader} {events : List Event},
      h.Knows c → s.isComplete c.name = false → motive s (h.parents c) t events →
        motive s [c] (t.inherit h c)
          (events ++ [.completedClass c.name (t.inherited h c).length]))
    (append : ∀ {s t u : TransformSet} {cs ds : List ClassHeader} {events events' : List Event},
      (∀ c ∈ cs, h.Knows c) → (∀ d ∈ ds, h.Knows d) → motive s cs t events →
        motive t ds u events' → motive s (cs ++ ds) u (events ++ events'))
    {roots : List ClassHeader} (hroots : ∀ r ∈ roots, h.Knows r) (s : TransformSet) :
    motive s roots (s.completeFrom h roots).1 (s.completeFrom h roots).2 := by
  -- First along a list, given each class of it; then up the hierarchy.
  have list {cs : List ClassHeader} (hcs : ∀ c ∈ cs, h.Knows c)
      (each : ∀ c ∈ cs, ∀ s : TransformSet, motive s [c] (s.complete h c).1 (s.complete h c).2)
      (s : TransformSet) : motive s cs (s.completeFrom h cs).1 (s.completeFrom h cs).2 := by
    induction cs generalizing s with
    | nil => exact settled (List.forall_mem_nil _)
    | cons c cs ih =>
      obtain ⟨hc, hcs⟩ := List.forall_mem_cons.1 hcs
      obtain ⟨hone, hrest⟩ := List.forall_mem_cons.1 each
      rw [completeFrom_cons]
      exact append (List.forall_mem_singleton.2 hc) hcs (hone s) (ih hcs hrest _)
  have single {c : ClassHeader} (hc : h.Knows c) (s : TransformSet) :
      motive s [c] (s.complete h c).1 (s.complete h c).2 := by
    induction c using acyclic.induction generalizing s with
    | step c ih =>
      cases hs : s.isComplete c.name with
      | true =>
        rw [complete_of_isComplete hs]
        exact settled (List.forall_mem_singleton.2 hs)
      | false =>
        rw [complete_of_not_isComplete acyclic hs]
        have hparents : ∀ p ∈ h.parents c, h.Knows p := fun _ => Hierarchy.IsParent.knows
        exact inherit hc hs (list hparents (fun p hp => ih p hp (hparents p hp)) s)
  exact list hroots (fun r hr => single (hroots r hr)) s

end TransformSet

end Openness
