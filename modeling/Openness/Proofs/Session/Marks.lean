import Openness.Proofs.Completion.Recursion
import Openness.Proofs.Format.AllOrNothing
import Openness.Proofs.Remap.Preimages
import Openness.Proofs.Session.Operations

/-!
# Marks in a session

Which classes of a session are complete. A class takes its mark along when it is copied or
removed from its set, so after an operation one asks where the class was before
(`Session.origin`). With this there is one law for all operations: a class is complete
exactly if it was complete where it comes from, or if the operation is a completion and the
class one of those that inherit (`Session.isComplete_step_iff`).

The law comes from the few ways in which operations change a session: by a new set or class
(`Session.isComplete_addSet_held`, `Session.isComplete_addClass_loose`), or within a set or
class (`Session.isComplete_editSet_held`, `Session.isComplete_editClass`).
-/

namespace Openness

namespace TransformSet

theorem isComplete_eq_any (s : TransformSet) (n : String) :
    s.isComplete n = (s.find? n).any (·.complete) := by
  rw [isComplete, entry]
  cases s.find? n <;> rfl

theorem isComplete_touch (s : TransformSet) (n m : String) :
    (s.touch n).isComplete m = s.isComplete m := by
  rw [isComplete_eq_any, find?_touch]
  split
  · rename_i h
    exact h ▸ rfl
  · exact (s.isComplete_eq_any m).symm

theorem isComplete_remove (s : TransformSet) (n m : String) :
    (s.remove n).isComplete m = (s.isComplete m && !decide (m = n)) := by
  rw [isComplete_eq_any, find?_remove, isComplete_eq_any]
  split <;> simp [*]

/-- Completion marks the classes that inherit. -/
theorem isComplete_completeFrom_iff {s : TransformSet} {h : Hierarchy} {roots : List ClassHeader}
    {n : String} :
    (s.completeFrom h roots).1.isComplete n = true ↔
      s.isComplete n = true ∨ ∃ d ∈ h.completionOrder s.isComplete roots, d.name = n := by
  rw [completeFrom, isComplete_inheritAll, Hierarchy.settledAfter, Bool.or_eq_true,
    List.any_eq_true]
  simp only [decide_eq_true_eq]

end TransformSet

/-- Reading into a set leaves the marks. -/
theorem Format.isComplete_readInto (settings : Settings) (bytes : List UInt8) (s : TransformSet)
    (n : String) : (readInto settings bytes s).1.isComplete n = s.isComplete n := by
  show ((read settings bytes).mergeInto s).isComplete n = _
  rw [Reading.mergeInto]
  split
  · exact s.isComplete_merge _ n
  · rfl

/-- What is read has no marks. -/
theorem Format.isComplete_of_read {settings : Settings} {bytes : List UInt8} {s : TransformSet}
    (h : s ∈ (read settings bytes).result.toOption) (n : String) : s.isComplete n = false := by
  have hread : (read settings bytes).result = .ok s := by
    cases hr : (read settings bytes).result with
    | error e =>
      rw [hr] at h
      cases h
    | ok t =>
      rw [hr] at h
      cases h
      rfl
  obtain ⟨-, rfl⟩ := readLines_eq_ok_iff.1 hread
  exact TransformSet.isComplete_follow ..

/-- A list to which something may have been added. -/
theorem getElem?_append_toList {α : Type} (l : List α) (o : Option α) (i : Nat) :
    (l ++ o.toList)[i]? = if i = l.length then o else l[i]? := by
  rw [List.getElem?_append]
  split
  · rename_i h
    rw [if_neg h.ne]
  · split
    · rename_i h
      rw [h, Nat.sub_self]
      cases o <;> rfl
    · have := o.length_toList_le
      rw [List.getElem?_eq_none (by omega), List.getElem?_eq_none (by omega)]

namespace Session

variable {σ : Session} {s : TransformSet} {p q : Place} {i j : Nat} {n : String}
  {op : Operation}

/-! ## Changes -/

theorem isComplete_held : σ.isComplete (.held i n) = (σ.sets[i]?).any (·.isComplete n) := by
  show ((σ.sets[i]?).bind (·.find? n)).any (·.complete) = _
  cases σ.sets[i]? with
  | none => rfl
  | some s => exact (s.isComplete_eq_any n).symm

theorem isComplete_addSet_held {s : Option TransformSet} :
    (σ.addSet s).isComplete (.held j n) =
      if j = σ.sets.length then s.any (·.isComplete n) else σ.isComplete (.held j n) := by
  rw [isComplete_held, isComplete_held]
  show ((σ.sets ++ s.toList)[j]?).any _ = _
  rw [getElem?_append_toList]
  split <;> rfl

theorem isComplete_addClass_loose {c : Option ClassEntry} :
    (σ.addClass c).isComplete (.loose j) =
      if j = σ.classes.length then c.any (·.complete) else σ.isComplete (.loose j) := by
  show ((σ.classes ++ c.toList)[j]?).any _ = _
  rw [getElem?_append_toList]
  split <;> rfl

theorem isComplete_editSet_held {f : TransformSet → TransformSet} :
    (σ.editSet i f).isComplete (.held j n) =
      if j = i then (σ.sets[i]?).any (fun s => (f s).isComplete n)
      else σ.isComplete (.held j n) := by
  rw [isComplete_held, isComplete_held]
  show ((σ.sets.modify i f)[j]?).any _ = _
  rw [List.getElem?_modify]
  by_cases h : j = i
  · subst h
    cases σ.sets[j]? <;> simp
  · cases σ.sets[j]? <;> simp [h, Ne.symm h]

/-- There is no complete class in a set that is not there yet. -/
theorem isComplete_new_held (n : String) : σ.isComplete (.held σ.sets.length n) = false := by
  rw [isComplete_held, List.getElem?_length]
  rfl

theorem isComplete_new_loose : σ.isComplete (.loose σ.classes.length) = false := by
  show ((σ.classes[σ.classes.length]?).any _) = false
  rw [List.getElem?_length]
  rfl

/-- A new set without marks changes none. -/
theorem isComplete_addSet {s : Option TransformSet} (hs : ∀ t ∈ s, ∀ n, t.isComplete n = false)
    (p : Place) : (σ.addSet s).isComplete p = σ.isComplete p := by
  cases p with
  | loose j => rfl
  | held j n =>
    rw [isComplete_addSet_held]
    split
    · rename_i h
      subst h
      rw [isComplete_new_held, Option.any_eq_false]
      exact fun t ht => hs t ht n
    · rfl

/-- A change of a set that leaves its marks leaves those of the session. -/
theorem isComplete_editSet {f : TransformSet → TransformSet}
    (hf : ∀ s n, (f s).isComplete n = s.isComplete n) (p : Place) :
    (σ.editSet i f).isComplete p = σ.isComplete p := by
  cases p with
  | loose j => rfl
  | held j n =>
    rw [isComplete_editSet_held]
    split
    · rename_i h
      simp only [hf, h, isComplete_held]
    · rfl

/-- What is asked of a class has nothing to do with its mark. -/
theorem isComplete_editClass (q : Place) (f : ClassTransforms → ClassTransforms) (p : Place) :
    (σ.editClass q f).isComplete p = σ.isComplete p := by
  cases q with
  | held i m =>
    refine isComplete_editSet (fun s n => ?_) p
    split
    · exact s.isComplete_modify m n f
    · rfl
  | loose i =>
    cases p with
    | held j n => rfl
    | loose j =>
      show ((σ.classes.modify i _)[j]?).any _ = (σ.classes[j]?).any _
      rw [List.getElem?_modify]
      cases σ.classes[j]? with
      | none => rfl
      | some c =>
        show ClassEntry.complete (if i = j then _ else c) = c.complete
        split <;> rfl

/-! ## One operation -/

/-- A class is one of those that inherit when some classes of a set are completed. -/
def Inherits (σ : Session) (i : Nat) (h : Hierarchy) (roots : TransformSet → List ClassHeader)
    (p : Place) : Prop :=
  ∃ s, σ.sets[i]? = some s ∧
    ∃ d ∈ h.completionOrder s.isComplete (roots s), p = .held i d.name

/-- The operation completes the class at a place. -/
def Completes (σ : Session) : Operation → Place → Prop
  | .complete i h c, p => σ.Inherits i h (fun _ => [c]) p
  | .completeAll i h, p => σ.Inherits i h (fun s => s.classes.names.filterMap h.find?) p
  | _, _ => False

/-- Where the class was, before an operation, that is at a place afterwards. -/
def origin (σ : Session) : Operation → Place → Option Place
  | .copySet i, .held j n => some (.held (if j = σ.sets.length then i else j) n)
  | .copyClass q, .loose j => some (if j = σ.classes.length then q else .loose j)
  | .remove i n, .loose j => some (if j = σ.classes.length then .held i n else .loose j)
  | .remove i n, .held j m => if j = i ∧ m = n then none else some (.held j m)
  | _, p => some p

theorem inherits_held_iff {h : Hierarchy} {roots : TransformSet → List ClassHeader}
    (hs : σ.sets[i]? = some s) :
    σ.Inherits i h roots (.held i n) ↔
      ∃ d ∈ h.completionOrder s.isComplete (roots s), d.name = n := by
  constructor
  · rintro ⟨_, hs', d, hd, hp⟩
    cases hs.symm.trans hs'
    cases hp
    exact ⟨d, hd, rfl⟩
  · rintro ⟨d, hd, rfl⟩
    exact ⟨s, hs, d, hd, rfl⟩

/-- Completion marks the classes that inherit, and no others. -/
theorem isComplete_editSet_completeFrom_iff {h : Hierarchy}
    {roots : TransformSet → List ClassHeader} :
    (σ.editSet i fun s => (s.completeFrom h (roots s)).1).isComplete p = true ↔
      σ.isComplete p = true ∨ σ.Inherits i h roots p := by
  have other (hp : ∀ n, p ≠ .held i n) : ¬σ.Inherits i h roots p := by
    rintro ⟨s, -, d, -, rfl⟩
    exact hp _ rfl
  cases p with
  | loose j => exact (or_iff_left (other fun _ => Place.noConfusion)).symm
  | held j n =>
    rw [isComplete_editSet_held]
    split
    · rename_i hj
      subst hj
      rw [isComplete_held]
      cases hs : σ.sets[j]? with
      | none =>
        refine (or_iff_left ?_).symm
        rintro ⟨s, hs', -⟩
        cases hs.symm.trans hs'
      | some s =>
        rw [inherits_held_iff hs]
        exact TransformSet.isComplete_completeFrom_iff
    · rename_i hj
      exact (or_iff_left (other fun _ h => hj (Place.held.inj h).1)).symm

theorem isComplete_newClass (m : String) (p : Place) :
    (σ.step (.newClass m)).isComplete p = σ.isComplete p := by
  cases p with
  | held j n => rfl
  | loose j =>
    show (σ.addClass _).isComplete _ = _
    rw [isComplete_addClass_loose]
    split
    · rename_i h
      subst h
      exact isComplete_new_loose.symm
    · rfl

/-- The classes of a copy are those of the set. -/
theorem isComplete_copySet (i : Nat) (p : Place) :
    (σ.step (.copySet i)).isComplete p = (σ.origin (.copySet i) p).any σ.isComplete := by
  cases p with
  | loose j => rfl
  | held j n =>
    show (σ.addSet σ.sets[i]?).isComplete _ =
      σ.isComplete (.held (if j = σ.sets.length then i else j) n)
    rw [isComplete_addSet_held, ← isComplete_held]
    split <;> rfl

theorem isComplete_copyClass (q p : Place) :
    (σ.step (.copyClass q)).isComplete p = (σ.origin (.copyClass q) p).any σ.isComplete := by
  cases p with
  | held j n => rfl
  | loose j =>
    show (σ.addClass (σ.class? q)).isComplete _ =
      σ.isComplete (if j = σ.classes.length then q else .loose j)
    rw [isComplete_addClass_loose]
    split <;> rfl

/-- A class that is removed is in no set from then on. -/
theorem isComplete_remove (i : Nat) (m : String) (p : Place) :
    (σ.step (.remove i m)).isComplete p = (σ.origin (.remove i m) p).any σ.isComplete := by
  cases p with
  | loose j =>
    show Session.isComplete (.addClass _ (σ.class? _)) _ =
      σ.isComplete (if j = σ.classes.length then .held i m else .loose j)
    rw [isComplete_addClass_loose]
    show (if j = σ.classes.length then _ else _) = _
    split <;> rfl
  | held j n =>
    show (σ.editSet i (·.remove m)).isComplete (.held j n) =
      (if j = i ∧ n = m then none else some (.held j n) : Option Place).any σ.isComplete
    rw [isComplete_editSet_held]
    split
    · rename_i hj
      subst hj
      simp only [TransformSet.isComplete_remove, true_and]
      split
      · simp [*]
      · simp [*, isComplete_held]
    · rename_i hj
      rw [if_neg fun h => hj h.1]
      rfl

/-- A class is complete after an operation exactly if it was complete where it comes from, or
    if the operation completes it. -/
theorem isComplete_step_iff :
    (σ.step op).isComplete p = true ↔
      (∃ q, σ.origin op p = some q ∧ σ.isComplete q = true) ∨ σ.Completes op p := by
  have came {τ : Session} {o : Option Place} (hτ : τ.isComplete p = o.any σ.isComplete) :
      τ.isComplete p = true ↔ (∃ q, o = some q ∧ σ.isComplete q = true) ∨ False := by
    rw [hτ, or_false, Option.any_eq_true]
  have inherits {τ : Session} {P : Prop} (hτ : τ.isComplete p = true ↔ σ.isComplete p = true ∨ P) :
      τ.isComplete p = true ↔ (∃ q, some p = some q ∧ σ.isComplete q = true) ∨ P := by
    simpa using hτ
  cases op with
  | newSet => exact came (isComplete_addSet (by rintro _ ⟨⟩ _; rfl) p)
  | copySet i => exact came (isComplete_copySet i p)
  | newClass m => exact came (isComplete_newClass m p)
  | copyClass q => exact came (isComplete_copyClass q p)
  | touch i m => exact came (isComplete_editSet (fun s n => s.isComplete_touch m n) p)
  | remove i m => exact came (isComplete_remove i m p)
  | merge q slot t => exact came (isComplete_editClass ..)
  | replace q slot t => exact came (isComplete_editClass ..)
  | mergeClass q q' => exact came (isComplete_editClass ..)
  | mergeSet i j =>
    refine came (isComplete_editSet (fun s n => ?_) p)
    cases σ.sets[j]? with
    | none => rfl
    | some t => exact s.isComplete_merge t n
  | complete i h c => exact inherits isComplete_editSet_completeFrom_iff
  | completeAll i h => exact inherits isComplete_editSet_completeFrom_iff
  | remap i r =>
    refine came (isComplete_addSet (fun t ht n => ?_) p)
    obtain ⟨s, -, rfl⟩ := Option.map_eq_some_iff.1 ht
    exact TransformSet.isComplete_remapped n
  | read settings bytes =>
    exact came (isComplete_addSet (fun t ht => Format.isComplete_of_read ht) p)
  | readInto i settings bytes =>
    exact came (isComplete_editSet (Format.isComplete_readInto settings bytes) p)

end Session

end Openness
