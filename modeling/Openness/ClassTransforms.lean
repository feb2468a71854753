import Openness.Signature
import Openness.Slots

/-!
# The transforms of a class

What is asked of one class: a transform for the class itself, one for all its
fields, one for all its methods, and transforms for single fields and methods.
Each of these is a slot (`Slot`), and a class is the same thing as the function
from slots to transforms (`ClassTransforms.ext_get`).

* `get_set`, `get_union`: a change is seen in its own slot, and classes are
  joined slot by slot;
* `ClassTransforms.lookup`: a field or method without an entry of its own takes
  what is asked of all of them;
* `ClassTransforms.merge`, `ClassTransforms.replace`: the changes a caller may
  make, each with its answer.
-/

namespace Openness

/-- What a transform may be asked of, within a class. -/
inductive Slot where
  /-- The class itself. -/
  | own
  /-- Every field. -/
  | allFields
  /-- Every method. -/
  | allMethods
  /-- One field. -/
  | field (name : String)
  /-- One method. -/
  | method (signature : Signature)
  deriving DecidableEq, Repr

/-- What is asked of one class. -/
structure ClassTransforms where
  /-- What is asked of the class itself. -/
  own : Transform := .neutral
  /-- What is asked of every field. -/
  allFields : Transform := .neutral
  /-- What is asked of every method. -/
  allMethods : Transform := .neutral
  /-- What is asked of single fields. -/
  fields : Slots String := ∅
  /-- What is asked of single methods. -/
  methods : Slots Signature := ∅
  deriving DecidableEq, Inhabited

namespace ClassTransforms

instance : EmptyCollection ClassTransforms := ⟨{}⟩

instance : Hashable ClassTransforms :=
  ⟨fun c => hash (c.own, c.allFields, c.allMethods, c.fields.toList, c.methods.toList)⟩

/-! ## Slots -/

/-- The transform in a slot. -/
def get (c : ClassTransforms) : Slot → Transform
  | .own => c.own
  | .allFields => c.allFields
  | .allMethods => c.allMethods
  | .field n => c.fields.get n
  | .method m => c.methods.get m

/-- Puts a transform into a slot, in place of what it holds. -/
def set (c : ClassTransforms) (slot : Slot) (t : Transform) : ClassTransforms :=
  match slot with
  | .own => { c with own := t }
  | .allFields => { c with allFields := t }
  | .allMethods => { c with allMethods := t }
  | .field n => { c with fields := c.fields.set n t }
  | .method m => { c with methods := c.methods.set m t }

/-- Joins a transform into a slot. -/
def join (c : ClassTransforms) (slot : Slot) (t : Transform) : ClassTransforms :=
  c.set slot (max (c.get slot) t)

/-- The classes joined slot by slot. -/
def union (c d : ClassTransforms) : ClassTransforms where
  own := max c.own d.own
  allFields := max c.allFields d.allFields
  allMethods := max c.allMethods d.allMethods
  fields := c.fields.union d.fields
  methods := c.methods.union d.methods

/-- Whether all slots are neutral. -/
def isEmpty (c : ClassTransforms) : Bool :=
  c.own.isNeutral && c.allFields.isNeutral && c.allMethods.isNeutral &&
    c.fields.isEmpty && c.methods.isEmpty

/-- The entries of the single fields. -/
def fieldEntries (c : ClassTransforms) : List (Slot × Transform) :=
  c.fields.toList.map fun e => (.field e.1, e.2)

/-- The entries of the single methods. -/
def methodEntries (c : ClassTransforms) : List (Slot × Transform) :=
  c.methods.toList.map fun e => (.method e.1, e.2)

/-- The slots that are not neutral: the class, its fields, its methods. -/
def entries (c : ClassTransforms) : List (Slot × Transform) :=
  let every : List (Slot × Transform) :=
    (.own, c.own) :: (.allFields, c.allFields) :: c.fieldEntries
      ++ (.allMethods, c.allMethods) :: c.methodEntries
  every.filter fun e => !e.2.isNeutral

/-! ## Answers -/

/-- What holds for a slot: a single field or method without an entry of its own
    takes what is asked of all of them. -/
def lookup (c : ClassTransforms) : Slot → Transform
  | .field n => (c.fields.find? n).getD c.allFields
  | .method m => (c.methods.find? m).getD c.allMethods
  | slot => c.get slot

/-- Joins a transform into a slot. The answer is what the slot holds then. -/
def merge (c : ClassTransforms) (slot : Slot) (t : Transform) : Transform × ClassTransforms :=
  let c := c.join slot t
  (c.get slot, c)

/-- Puts a transform into a slot. The answer is what the slot holds then or,
    for a single field or method, the entry that it had, if any. -/
def replace (c : ClassTransforms) (slot : Slot) (t : Transform) :
    Option Transform × ClassTransforms :=
  let answer :=
    match slot with
    | .field n => c.fields.find? n
    | .method m => c.methods.find? m
    | _ => some t
  (answer, c.set slot t)

/-- How a class is written in a message, with its name. -/
def display (c : ClassTransforms) (name : String) : String :=
  let part (label : String) (t : Transform) : List String :=
    if t.isNeutral then [] else [label ++ t.display]
  let parts := part "" c.own ++ part "allFields=" c.allFields ++ part "allMethods=" c.allMethods
    ++ c.fields.toList.flatMap (fun e => part (e.1 ++ "=") e.2)
    ++ c.methods.toList.flatMap (fun e => part (e.1.display ++ "=") e.2)
  name ++ "\x7b" ++ ", ".intercalate parts ++ "\x7d"

/-! ## Look-up -/

@[simp] theorem get_empty (slot : Slot) : (∅ : ClassTransforms).get slot = .neutral := by
  cases slot <;> rfl

theorem get_set (c : ClassTransforms) (slot slot' : Slot) (t : Transform) :
    (c.set slot t).get slot' = if slot' = slot then t else c.get slot' := by
  cases slot <;> cases slot' <;> simp [set, get, Slots.get_set]

theorem get_join (c : ClassTransforms) (slot slot' : Slot) (t : Transform) :
    (c.join slot t).get slot' = if slot' = slot then max (c.get slot) t else c.get slot' :=
  get_set ..

/-- Classes are joined slot by slot. -/
theorem get_union (c d : ClassTransforms) (slot : Slot) :
    (c.union d).get slot = max (c.get slot) (d.get slot) := by
  cases slot <;> simp [union, get, Slots.get_union]

/-- Classes with the same slots are equal. -/
theorem ext_get {c d : ClassTransforms} (h : ∀ slot, c.get slot = d.get slot) : c = d := by
  have hf : c.fields = d.fields := Slots.ext_get fun n => h (.field n)
  have hm : c.methods = d.methods := Slots.ext_get fun m => h (.method m)
  cases c
  cases d
  congr
  · exact h .own
  · exact h .allFields
  · exact h .allMethods

theorem isEmpty_iff {c : ClassTransforms} : c.isEmpty = true ↔ ∀ slot, c.get slot = .neutral := by
  simp only [isEmpty, Transform.isNeutral, Bool.and_eq_true, decide_eq_true_eq, Slots.isEmpty_iff]
  constructor
  · rintro ⟨⟨⟨⟨hs, hf⟩, hm⟩, hfs⟩, hms⟩ slot
    cases slot <;> simp [get, *]
  · intro h
    exact ⟨⟨⟨⟨h .own, h .allFields⟩, h .allMethods⟩, fun n => h (.field n)⟩,
      fun m => h (.method m)⟩

theorem mem_entries {c : ClassTransforms} {slot : Slot} {t : Transform} :
    (slot, t) ∈ c.entries ↔ c.get slot = t ∧ t ≠ .neutral := by
  have hf : (slot, t) ∈ c.fieldEntries ↔
      ∃ n, slot = .field n ∧ c.fields.get n = t ∧ t ≠ .neutral := by
    simp only [fieldEntries, List.mem_map, Prod.exists, Slots.mem_toList, Prod.mk.injEq]
    constructor
    · rintro ⟨n, _, h, rfl, rfl⟩
      exact ⟨n, rfl, h⟩
    · rintro ⟨n, rfl, h⟩
      exact ⟨n, t, h, rfl, rfl⟩
  have hm : (slot, t) ∈ c.methodEntries ↔
      ∃ m, slot = .method m ∧ c.methods.get m = t ∧ t ≠ .neutral := by
    simp only [methodEntries, List.mem_map, Prod.exists, Slots.mem_toList, Prod.mk.injEq]
    constructor
    · rintro ⟨m, _, h, rfl, rfl⟩
      exact ⟨m, rfl, h⟩
    · rintro ⟨m, rfl, h⟩
      exact ⟨m, t, h, rfl, rfl⟩
  simp only [entries, List.mem_filter, List.mem_append, List.mem_cons, hf, hm, Prod.mk.injEq,
    Transform.isNeutral, Bool.not_eq_true', decide_eq_false_iff_not]
  cases slot <;> grind [get]

end ClassTransforms

end Openness
