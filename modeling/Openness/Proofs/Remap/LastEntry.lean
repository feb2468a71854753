import Openness.RenameTable

/-!
# What a table says

A table is made of entries, one added after the other, and each entry is about one thing:
a class, a field or a method of a class (`Rename.Subject`). What the table says about a
thing is what the last entry about it says (`RenameTable.renamed?_addAll`), no matter what
else was added, before, in between or behind.
-/

namespace Openness

namespace Rename

/-- What an entry is about. -/
inductive Subject where
  /-- A class. -/
  | ofClass (name : String)
  /-- A field of a class. -/
  | ofField (className name : String)
  /-- A method of a class. -/
  | ofMethod (className : String) (method : Signature)
  deriving DecidableEq

/-- What an entry is about. -/
def subject : Rename → Subject
  | .ofClass n _ => .ofClass n
  | .ofField n f _ => .ofField n f
  | .ofMethod n m _ => .ofMethod n m

/-- The new name that an entry gives. -/
def renamed : Rename → String
  | .ofClass _ renamed => renamed
  | .ofField _ _ renamed => renamed
  | .ofMethod _ _ renamed => renamed

/-- Entries about the same thing that give the same new name are equal. -/
theorem eq_of_subject_eq {e e' : Rename} (hsubject : e.subject = e'.subject)
    (hrenamed : e.renamed = e'.renamed) : e = e' := by
  cases e <;> cases e' <;> simp_all [subject, renamed]

/-- The new name that the last entry about a thing gives, if there is one. -/
def lastFor (entries : List Rename) (k : Subject) : Option String :=
  (entries.reverse.find? (·.subject = k)).map renamed

/-- The first entry counts only if there is no other one about the same thing. -/
theorem lastFor_cons (e : Rename) (entries : List Rename) (k : Subject) :
    lastFor (e :: entries) k =
      (lastFor entries k).or (if e.subject = k then some e.renamed else none) := by
  rw [lastFor, List.reverse_cons, List.find?_append, Option.map_or, List.find?_singleton]
  by_cases h : e.subject = k
  · simp [lastFor, h]
  · simp [lastFor, h]

end Rename

namespace RenameTable

/-- The new name that a table has for a thing by an entry about it. -/
def renamed? (t : RenameTable) : Rename.Subject → Option String
  | .ofClass n => (t.find n).renamed
  | .ofField n f => (t.find n).fields.find? f
  | .ofMethod n m => (t.find n).methods.find? m

/-- An entry changes what is said about its own thing only. -/
theorem renamed?_add (t : RenameTable) (e : Rename) (k : Rename.Subject) :
    (t.add e).renamed? k = if e.subject = k then some e.renamed else t.renamed? k := by
  -- What an entry changes is in one class, and there in one of the three parts.
  cases e <;> cases k <;> simp only [add, renamed?, Rename.subject, find_modify] <;> split <;>
    simp_all [SortedMap.find?_insert, Rename.renamed, eq_comm]

/-- A table says of everything what the last entry about it says. -/
theorem renamed?_addAll (t : RenameTable) (entries : List Rename) (k : Rename.Subject) :
    (t.addAll entries).renamed? k = (Rename.lastFor entries k).or (t.renamed? k) := by
  induction entries generalizing t with
  | nil => rfl
  | cons e entries ih =>
    show ((t.add e).addAll entries).renamed? k = _
    rw [ih, renamed?_add, Rename.lastFor_cons, Option.or_assoc]
    split <;> rfl

/-- A new table says of nothing more than that. -/
theorem renamed?_addAll_empty (entries : List Rename) (k : Rename.Subject) :
    (addAll ∅ entries).renamed? k = Rename.lastFor entries k := by
  rw [renamed?_addAll]
  cases k <;> exact Option.or_none

end RenameTable

end Openness
