import Openness.Descriptor.Names
import Openness.Signature

/-!
# Renamers

A renamer knows new names for classes, fields and methods (`Renamer`). It is
always asked with the old names, and may have no answer. In a descriptor the
classes take their new names, unless the renamer has a way of its own.
-/

namespace Openness

/-- New names for classes and their members. -/
structure Renamer where
  /-- The new name of a class. -/
  newClass : String → Option String
  /-- The new name of a field of a class. -/
  newField : String → String → Option String
  /-- The new name and descriptor of a method of a class. -/
  newMethod : String → Signature → Option Signature
  /-- The descriptor of a method with the new names of classes. -/
  newDescriptor : String → String := renameDescriptor newClass

namespace Renamer

/-- The renamer that knows no new names. -/
def none : Renamer where
  newClass _ := .none
  newField _ _ := .none
  newMethod _ _ := .none

/-- The name that a class goes by afterwards. -/
def classTarget (r : Renamer) (n : String) : String := (r.newClass n).getD n

/-- The name that a field goes by afterwards. -/
def fieldTarget (r : Renamer) (n field : String) : String := (r.newField n field).getD field

/-- The signature that a method goes by afterwards. Without an answer the name
    stays, and the classes in the descriptor take their new names. -/
def methodTarget (r : Renamer) (n : String) (m : Signature) : Signature :=
  (r.newMethod n m).getD ⟨m.name, r.newDescriptor m.descriptor⟩

end Renamer

end Openness
