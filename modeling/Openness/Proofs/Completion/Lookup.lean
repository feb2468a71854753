import Openness.Proofs.Completion.Joins

/-!
# Look-ups after completion

Completion only adds to what is stored (`TransformSet.Completed.get_le`), but a
look-up may lose by it. A method without an entry takes what is asked of all
methods of its class; once it has inherited an entry, it takes that instead,
even if that asks for less.

`TransformSet.Narrows` describes these methods, and there are no others
(`TransformSet.lookup_le_complete_iff`).
-/

namespace Openness

namespace TransformSet

variable {h : Hierarchy} {c : ClassHeader}

/-- A method without an entry inherits one that asks for less than what is asked
    of all methods of its class. -/
def Narrows (h : Hierarchy) (s : TransformSet) (roots : List ClassHeader) (n : String)
    (m : Signature) : Prop :=
  ∃ d, h.Due s.isComplete roots d ∧ d.name = n ∧ s.get n (.method m) = .neutral ∧
    ∃ j, IsLUB (h.heritage s m d) j ∧ j ≠ .neutral ∧ ¬s.get n .allMethods ≤ j

theorem lookup_method (s : TransformSet) (n : String) (m : Signature) :
    s.lookup n (.method m) =
      if s.get n (.method m) = .neutral then s.get n .allMethods else s.get n (.method m) := by
  have : s.lookup n (.method m) =
      ((s.entry n).transforms.methods.find? m).getD (s.get n .allMethods) := rfl
  rw [this, Slots.find?_eq]
  split <;> simp_all [get, ClassTransforms.get]

/-- In an acyclic hierarchy, completing a class makes a look-up lose exactly if
    an inherited entry takes the place of more. -/
theorem lookup_le_complete_iff (acyclic : h.Acyclic) (hc : h.Knows c) (s : TransformSet)
    (n : String) (m : Signature) :
    s.lookup n (.method m) ≤ (s.complete h c).1.lookup n (.method m) ↔ ¬Narrows h s [c] n m := by
  have ht := Completed.complete acyclic hc s
  have wild : (s.complete h c).1.get n .allMethods = s.get n .allMethods :=
    ht.get_of_not_method n (by simp)
  have grows := ht.get_le n (.method m)
  rw [lookup_method, lookup_method, wild]
  constructor
  · rintro hle ⟨d, hd, rfl, hs, j, hj, hne, hnle⟩
    have hj : j = (s.complete h c).1.get d.name (.method m) :=
      hj.unique (ht.isLUB acyclic hd m)
    rw [if_pos hs, if_neg (hj ▸ hne), ← hj] at hle
    exact hnle hle
  · intro hn
    by_cases hs : s.get n (.method m) = .neutral
    · rw [if_pos hs]
      split
      · exact le_rfl
      · rename_i ht'
        by_contra hnle
        -- The entry is new, so the class was due.
        obtain ⟨d, hd, rfl⟩ | same := ht.due_or_find?_eq n
        · exact hn ⟨d, hd, rfl, hs, _, ht.isLUB acyclic hd m, ht', hnle⟩
        · exact ht' (by rw [get_of_find?_eq same, hs])
    · have ht' : (s.complete h c).1.get n (.method m) ≠ .neutral := fun e =>
        hs (Transform.le_neutral_iff.1 (e ▸ grows))
      rw [if_neg hs, if_neg ht']
      exact grows

/-- All methods on the left of the diamond are to be public, and `run` in the top
    is to be private. -/
def openLeft : TransformSet :=
  ((∅ : TransformSet).join "a/Left" .allMethods ⟨.toPublic, .keep⟩).join
    "a/Top" (.method Hierarchy.run) ⟨.toPrivate, .keep⟩

open Hierarchy in
/-- On the left of the diamond `run` is narrowed: it was to be public. -/
theorem left_narrows :
    diamond.Acyclic ∧ diamond.Knows (runner "a/Left" ["a/Top"]) ∧
      Narrows diamond openLeft [runner "a/Left" ["a/Top"]] "a/Left" run := by
  have knows : diamond.Knows (runner "a/Left" ["a/Top"]) := by decide
  refine ⟨diamond_acyclic, knows, ?_⟩
  by_contra hn
  revert hn
  rw [← lookup_le_complete_iff diamond_acyclic knows]
  decide

open Hierarchy in
/-- A look-up loses by completion: `run` was to be public and is to be private. -/
theorem left_lookup_not_le_complete :
    diamond.Acyclic ∧ diamond.Knows (runner "a/Left" ["a/Top"]) ∧
      openLeft.lookup "a/Left" (.method run) = ⟨.toPublic, .keep⟩ ∧
      (openLeft.complete diamond (runner "a/Left" ["a/Top"])).1.lookup "a/Left" (.method run) =
        ⟨.toPrivate, .keep⟩ ∧
      ¬openLeft.lookup "a/Left" (.method run) ≤
        (openLeft.complete diamond (runner "a/Left" ["a/Top"])).1.lookup "a/Left" (.method run) :=
  ⟨diamond_acyclic, by decide, by decide, by decide, by decide⟩

end TransformSet

end Openness
