/-!
# Descriptors

The types of fields and methods as the class file writes them. A field
descriptor is a number of `[`, one for each array dimension, and then a letter
for a primitive type or a class name between `L` and `;`. A method descriptor
holds the parameters in parentheses and then the result, where `V` is no
result.

A type is printed as a list of characters (`FieldType.chars`,
`MethodType.chars`). Not every type can be read back: a class name must not hold
the mark of its end, and arrays have a limit of dimensions
(`FieldType.WellFormed`, `MethodType.WellFormed`).
-/

namespace Openness

/-! ## Types -/

/-- The primitive types. -/
inductive Primitive where
  | byte
  | char
  | double
  | float
  | int
  | long
  | short
  | boolean
  deriving DecidableEq, Repr

/-- What an array is an array of in the end: a type that is not an array. -/
inductive ElementType where
  | primitive (type : Primitive)
  | object (className : String)
  deriving DecidableEq, Repr

/-- The type of a field, a parameter or a result. -/
structure FieldType where
  /-- The number of array dimensions. -/
  dims : Nat
  /-- The type below the arrays. -/
  element : ElementType
  deriving DecidableEq, Repr

/-- What a method returns. -/
inductive ResultType where
  | void
  | value (type : FieldType)
  deriving DecidableEq, Repr

/-- The type of a method. -/
structure MethodType where
  /-- The types of the parameters. -/
  params : List FieldType
  /-- What is returned. -/
  result : ResultType
  deriving DecidableEq, Repr

/-! ## Printing -/

namespace Primitive

/-- All primitive types. -/
def all : List Primitive := [byte, char, double, float, int, long, short, boolean]

/-- The letter of a primitive type. -/
def code : Primitive → Char
  | byte => 'B'
  | char => 'C'
  | double => 'D'
  | float => 'F'
  | int => 'I'
  | long => 'J'
  | short => 'S'
  | boolean => 'Z'

/-- The primitive type of a letter. -/
def ofCode? (c : Char) : Option Primitive := all.find? (·.code = c)

theorem ofCode?_code (p : Primitive) : ofCode? p.code = some p := by
  cases p <;> rfl

theorem code_of_ofCode? {c : Char} {p : Primitive} (h : ofCode? c = some p) : p.code = c := by
  simpa using List.find?_some h

end Primitive

/-- The characters of an element type. -/
def ElementType.chars : ElementType → List Char
  | primitive p => [p.code]
  | object n => 'L' :: (n.toList ++ [';'])

/-- The characters of a field descriptor. -/
def FieldType.chars (t : FieldType) : List Char :=
  List.replicate t.dims '[' ++ t.element.chars

/-- The characters of a result. -/
def ResultType.chars : ResultType → List Char
  | void => ['V']
  | value t => t.chars

/-- The characters of a method descriptor. -/
def MethodType.chars (m : MethodType) : List Char :=
  '(' :: (m.params.flatMap FieldType.chars ++ ')' :: m.result.chars)

/-- A field type as a descriptor. -/
def FieldType.display (t : FieldType) : String := String.ofList t.chars

/-- A result as a descriptor. -/
def ResultType.display (r : ResultType) : String := String.ofList r.chars

/-- A method type as a descriptor. -/
def MethodType.display (m : MethodType) : String := String.ofList m.chars

/-! ## Well-formed types -/

/-- An element type that a descriptor can be read back to: a class has a name,
    and one that does not hold the mark of its end. -/
def ElementType.WellFormed : ElementType → Prop
  | primitive _ => True
  | object n => n ≠ "" ∧ ';' ∉ n.toList

/-- The most dimensions that an array may have. -/
def maxDims : Nat := 255

/-- A field type that a descriptor can be read back to. -/
def FieldType.WellFormed (t : FieldType) : Prop :=
  t.dims ≤ maxDims ∧ t.element.WellFormed

/-- A result that a descriptor can be read back to. -/
def ResultType.WellFormed : ResultType → Prop
  | void => True
  | value t => t.WellFormed

/-- A method type that a descriptor can be read back to. -/
def MethodType.WellFormed (m : MethodType) : Prop :=
  (∀ t ∈ m.params, t.WellFormed) ∧ m.result.WellFormed

end Openness
