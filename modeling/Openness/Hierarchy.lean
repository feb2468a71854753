import Openness.Access
import Openness.Roster
import Openness.Signature

/-!
# Class hierarchies

What is known of classes besides their transforms: parents, and which methods
are declared with which flags (`ClassHeader`). A hierarchy holds any number of
classes by name. A parent that it does not hold is no parent
(`Hierarchy.parents`).

`ClassHeader.overrides` is the rule of the virtual machine: both classes declare
the method, neither declares it private or static, it is no initializer, and
the child sees the declaration of the parent, because that is public or
protected or because both are of one package.
-/

namespace Openness

/-- What is known of a class. -/
structure ClassHeader where
  /-- The internal name. -/
  name : String
  /-- The class that it extends. -/
  superclass : Option String := none
  /-- The interfaces that it implements or extends. -/
  interfaces : List String := []
  /-- The methods that it declares, with their flags. -/
  methods : SortedMap Signature Flags := ∅
  deriving DecidableEq

instance : Named ClassHeader := ⟨ClassHeader.name⟩

namespace ClassHeader

/-- The package of a class name: what stands before the last slash. -/
def packageOf (name : String) : String :=
  String.ofList (name.toList.reverse.dropWhile (· != '/')).tail.reverse

/-- The package of a class. -/
def package (c : ClassHeader) : String := packageOf c.name

/-- The names of the parents: the superclass, then the interfaces. -/
def parentNames (c : ClassHeader) : List String := c.superclass.toList ++ c.interfaces

/-- Whether a declaration takes part in overriding at all. -/
def isVirtual (flags : Flags) : Bool := !flags.hasAny (Flags.staticBit ||| Flags.privateBit)

/-- Whether a child can see a declaration of this class. -/
def isVisibleTo (c child : ClassHeader) (flags : Flags) : Bool :=
  flags.hasAny (Flags.publicBit ||| Flags.protectedBit) || c.package = child.package

/-- Whether a method of this class overrides that of a parent. -/
def overrides (c : ClassHeader) (m : Signature) (parent : ClassHeader) : Bool :=
  match c.methods.find? m, parent.methods.find? m with
  | some own, some flags =>
    isVirtual own && !m.isInitializer && isVirtual flags && parent.isVisibleTo c flags
  | _, _ => false

end ClassHeader

/-- Classes by name. -/
abbrev Hierarchy := Roster ClassHeader

namespace Hierarchy

/-- The known parents of a class: the superclass, then the interfaces, as often
    as they are named. -/
def parents (h : Hierarchy) (c : ClassHeader) : List ClassHeader :=
  c.parentNames.filterMap h.find?

/-- A known parent is held under a name that the class gives as a parent's. -/
theorem mem_parents {h : Hierarchy} {c p : ClassHeader} :
    p ∈ h.parents c ↔ p.name ∈ c.parentNames ∧ h.find? p.name = some p := by
  rw [parents, List.mem_filterMap]
  constructor
  · rintro ⟨n, hn, hp⟩
    have : p.name = n := Roster.name_of_find? hp
    exact this ▸ ⟨hn, hp⟩
  · rintro ⟨hn, hp⟩
    exact ⟨_, hn, hp⟩

end Hierarchy

end Openness
