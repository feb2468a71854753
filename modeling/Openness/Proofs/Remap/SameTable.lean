import Openness.Proofs.Remap.LastEntry
import Openness.Remap

/-!
# Tables that say the same

A table is determined by the last entries for the things it is about
(`RenameTable.determined_by_last`): two sequences of entries make equal tables exactly if
their last entries give the same new names to the same things. How entries for different
things follow each other does not matter, nor what was there before the last entry for a
thing.

What a table says does not determine it by itself, as it could hold a class of which it
says nothing. No such class is ever added (`RenameTable.Terse.addAll`), and tables without
one are equal if they say the same (`RenameTable.Terse.ext_renamed?`).
-/

namespace Openness

attribute [ext] ClassRenames

namespace RenameTable

variable {t u : RenameTable}

/-! ## Terse tables -/

/-- A table is terse if it says something about every class that it holds. -/
def Terse (t : RenameTable) : Prop := ∀ n c, t.classes.find? n = some c → c ≠ {}

theorem Terse.empty : (∅ : RenameTable).Terse := fun _ _ h => nomatch h

/-- A table stays terse with an entry more: the entry is what is said about its class. -/
theorem Terse.add (ht : t.Terse) (e : Rename) : (t.add e).Terse := by
  have modify {n : String} {f : ClassRenames → ClassRenames} (hf : f (t.find n) ≠ {}) :
      (t.modify n f).Terse := by
    intro m c hc
    rw [RenameTable.modify, SortedMap.find?_insert] at hc
    split at hc
    · cases hc
      exact hf
    · exact ht m c hc
  -- An entry of each kind leaves something behind in its class: a name, a field or a method.
  cases e with
  | ofClass n renamed =>
    refine modify fun h => ?_
    cases congrArg ClassRenames.renamed h
  | ofField n f renamed =>
    refine modify fun h => ?_
    have hf := congrArg (fun c => c.fields.find? f) h
    simp [SortedMap.find?_insert] at hf
  | ofMethod n m renamed =>
    refine modify fun h => ?_
    have hm := congrArg (fun c => c.methods.find? m) h
    simp [SortedMap.find?_insert] at hm

theorem Terse.addAll (ht : t.Terse) (entries : List Rename) : (t.addAll entries).Terse := by
  induction entries generalizing t with
  | nil => exact ht
  | cons e entries ih => exact ih (ht.add e)

/-- A terse table holds a class exactly if it says something about it. -/
theorem Terse.find?_classes (ht : t.Terse) (n : String) :
    t.classes.find? n = if t.find n = {} then none else some (t.find n) := by
  rw [find]
  cases h : t.classes.find? n with
  | none => rfl
  | some c => rw [Option.getD_some, if_neg (ht n c h)]

/-! ## Equal tables -/

/-- Tables that say the same of all things say the same of every class. -/
theorem find_eq_of_renamed? (h : ∀ k, t.renamed? k = u.renamed? k) (n : String) :
    t.find n = u.find n := by
  apply ClassRenames.ext
  · exact h (.ofClass n)
  · exact SortedMap.ext_find? fun f => h (.ofField n f)
  · exact SortedMap.ext_find? fun m => h (.ofMethod n m)

/-- Terse tables that say the same are equal. -/
theorem Terse.ext_renamed? (ht : t.Terse) (hu : u.Terse)
    (h : ∀ k, t.renamed? k = u.renamed? k) : t = u := by
  -- Both hold a class exactly if they say something about it, and they say the same.
  have hclasses : t.classes = u.classes := SortedMap.ext_find? fun n => by
    rw [ht.find?_classes, hu.find?_classes, find_eq_of_renamed? h]
  cases t
  cases u
  exact congrArg mk hclasses

theorem addAll_empty_eq_iff {entries entries' : List Rename} :
    addAll ∅ entries = addAll ∅ entries' ↔
      ∀ k, Rename.lastFor entries k = Rename.lastFor entries' k := by
  constructor
  · intro h k
    rw [← renamed?_addAll_empty, h, renamed?_addAll_empty]
  · intro h
    refine (Terse.empty.addAll entries).ext_renamed? (Terse.empty.addAll entries') fun k => ?_
    rw [renamed?_addAll_empty, renamed?_addAll_empty, h]

/-- Sequences of entries with the same last new names for the same things make equal tables,
    by which every set is renamed alike; others make tables that differ. -/
theorem determined_by_last (entries entries' : List Rename) :
    ((∀ k, Rename.lastFor entries k = Rename.lastFor entries' k) →
      addAll ∅ entries = addAll ∅ entries' ∧
        ∀ s : TransformSet,
          s.remap (addAll ∅ entries).renamer = s.remap (addAll ∅ entries').renamer) ∧
    ((∃ k, Rename.lastFor entries k ≠ Rename.lastFor entries' k) →
      addAll ∅ entries ≠ addAll ∅ entries') := by
  constructor
  · intro h
    have htables := addAll_empty_eq_iff.2 h
    exact ⟨htables, fun s => by rw [htables]⟩
  · rintro ⟨k, hk⟩ h
    exact hk (addAll_empty_eq_iff.1 h k)

/-- Entries of all kinds for one class, and one for another class. -/
def settled : List Rename :=
  [.ofClass "a" "p/A", .ofField "a" "x" "y", .ofMethod "a" ⟨"m", "()V"⟩ "run",
    .ofClass "b" "q/B"]

/-- The same entries in another order, after others that they replace. -/
def revised : List Rename :=
  [.ofClass "b" "b/B", .ofMethod "a" ⟨"m", "()V"⟩ "go", .ofField "a" "x" "z",
    .ofMethod "a" ⟨"m", "()V"⟩ "run", .ofClass "b" "q/B", .ofField "a" "x" "y",
    .ofClass "a" "p/A"]

theorem lastFor_settled (k : Rename.Subject) :
    Rename.lastFor settled k = Rename.lastFor revised k := by
  simp only [settled, revised, Rename.lastFor, List.reverse_cons, List.reverse_nil, List.nil_append,
    List.cons_append, List.find?_cons, List.find?_nil, Rename.subject]
  grind [Rename.renamed]

/-- The order and what was replaced do not show in the table, but a missing entry does. -/
theorem settled_revised :
    (∀ k, Rename.lastFor settled k = Rename.lastFor revised k) ∧
      addAll ∅ settled = addAll ∅ revised ∧
      (∀ s : TransformSet,
        s.remap (addAll ∅ settled).renamer = s.remap (addAll ∅ revised).renamer) ∧
      Rename.lastFor settled (.ofClass "b") ≠ Rename.lastFor (revised.drop 5) (.ofClass "b") ∧
      addAll ∅ settled ≠ addAll ∅ (revised.drop 5) := by
  have hmissing : Rename.lastFor settled (.ofClass "b") ≠
      Rename.lastFor (revised.drop 5) (.ofClass "b") := by decide
  obtain ⟨htables, hremap⟩ := (determined_by_last settled revised).1 lastFor_settled
  exact ⟨lastFor_settled, htables, hremap, hmissing,
    (determined_by_last settled (revised.drop 5)).2 ⟨_, hmissing⟩⟩

end RenameTable

end Openness
