import Openness.Renamer
import Openness.SortedMap

/-!
# Rename tables

A renamer made of entries (`Rename`), of which the last one for a class, field
or method counts. A class without an entry of its own follows the class that it
is nested in: the name up to the last dollar sign is renamed, and the rest is
kept.
-/

namespace Openness

/-- An entry of a rename table. -/
inductive Rename where
  /-- A class is renamed. -/
  | ofClass (name renamed : String)
  /-- A field of a class is renamed. -/
  | ofField (className name renamed : String)
  /-- A method of a class is renamed. -/
  | ofMethod (className : String) (method : Signature) (renamed : String)
  deriving DecidableEq

/-- What a table says about one class. -/
structure ClassRenames where
  /-- The new name of the class. -/
  renamed : Option String := none
  /-- The new names of its fields. -/
  fields : SortedMap String String := ∅
  /-- The new names of its methods. -/
  methods : SortedMap Signature String := ∅
  deriving DecidableEq, Inhabited

/-- New names for classes, fields and methods. -/
structure RenameTable where
  /-- What is said about each class. -/
  classes : SortedMap String ClassRenames := ∅
  deriving DecidableEq, Inhabited

namespace RenameTable

instance : EmptyCollection RenameTable := ⟨{}⟩

/-- What the table says about a class. -/
def find (t : RenameTable) (n : String) : ClassRenames := (t.classes.find? n).getD {}

/-- Changes what the table says about a class. -/
def modify (t : RenameTable) (n : String) (f : ClassRenames → ClassRenames) : RenameTable :=
  ⟨t.classes.insert n (f (t.find n))⟩

/-- Adds an entry, in place of the one for the same class, field or method. -/
def add (t : RenameTable) : Rename → RenameTable
  | .ofClass n renamed => t.modify n fun c => { c with renamed := some renamed }
  | .ofField n f renamed => t.modify n fun c => { c with fields := c.fields.insert f renamed }
  | .ofMethod n m renamed => t.modify n fun c => { c with methods := c.methods.insert m renamed }

/-- Adds entries one after the other. -/
def addAll (t : RenameTable) (entries : List Rename) : RenameTable := entries.foldl add t

theorem find_modify (t : RenameTable) (n m : String) (f : ClassRenames → ClassRenames) :
    (t.modify n f).find m = if m = n then f (t.find n) else t.find m := by
  rw [find, modify, SortedMap.find?_insert]
  split <;> rfl

/-- Cuts a name at its last dollar sign: what stands before it, and the rest from
    the dollar sign on. -/
def splitNested (n : List Char) : Option (List Char × List Char) :=
  match n.reverse.dropWhile (· != '$') with
  | [] => none
  | _ :: outer => some (outer.reverse, '$' :: (n.reverse.takeWhile (· != '$')).reverse)

theorem splitNested_shorter {n outer rest : List Char} (h : splitNested n = some (outer, rest)) :
    outer.length < n.length := by
  simp only [splitNested] at h
  split at h
  · cases h
  · rename_i d l hd
    cases h
    have := (List.dropWhile_suffix (l := n.reverse) (· != '$')).length_le
    rw [hd] at this
    simp only [List.length_cons, List.length_reverse] at this ⊢
    omega

/-- The new name of a class, by its own entry or else by that of the class that
    it is nested in. -/
def newClassChars (t : RenameTable) (n : List Char) : Option (List Char) :=
  match (t.find (String.ofList n)).renamed with
  | some renamed => some renamed.toList
  | none =>
    match _h : splitNested n with
    | none => none
    | some (outer, rest) => (t.newClassChars outer).map (· ++ rest)
termination_by n.length
decreasing_by exact splitNested_shorter ‹_›

/-- The new name of a class. -/
def newClass (t : RenameTable) (n : String) : Option String :=
  (t.newClassChars n.toList).map String.ofList

/-- The table as a renamer. A renamed method has the classes in its descriptor
    renamed. -/
def renamer (t : RenameTable) : Renamer where
  newClass := t.newClass
  newField n field := (t.find n).fields.find? field
  newMethod n m :=
    ((t.find n).methods.find? m).map fun renamed =>
      ⟨renamed, renameDescriptor t.newClass m.descriptor⟩

end RenameTable

end Openness
