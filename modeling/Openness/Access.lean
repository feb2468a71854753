/-!
# Access levels and the final flag

What a wish about a class, field or method may ask for: an access level
(`Access`) and a change of the final flag (`Finality`). Both are chains. Of two
wishes the one further up the chain wins, so joining is `max`: the wider access
level, and taking `final` away over setting it.

A wish takes effect on the access flags of a class file, a word of sixteen bits
(`Flags`): `Access.apply` replaces the three bits that say who may use a member,
`Finality.apply` sets or clears one bit.
-/

namespace Openness

/-! ## Flags -/

/-- The access flags of a class, field or method, a bit each. -/
abbrev Flags := UInt16

namespace Flags

/-- The bit of what everyone may use. -/
def publicBit : Flags := 0x0001

/-- The bit of what its own class alone may use. -/
def privateBit : Flags := 0x0002

/-- The bit of what subclasses may use as well as the package. -/
def protectedBit : Flags := 0x0004

/-- The bit of what belongs to a class rather than to its objects. -/
def staticBit : Flags := 0x0008

/-- The bit of what may not be extended, overridden or written again. -/
def finalBit : Flags := 0x0010

/-- The three bits that say who may use a member. -/
def accessBits : Flags := 0x0007

/-- Whether any bit of `mask` is set. -/
def hasAny (flags mask : Flags) : Bool := flags &&& mask != 0

end Flags

/-! ## Access -/

/-- The access level that is asked for. -/
inductive Access where
  /-- The level stays as it is. -/
  | keep
  | toPrivate
  | toPackage
  | toProtected
  | toPublic
  deriving DecidableEq, Hashable, Repr

namespace Access

/-- All levels, from the narrowest on. -/
def all : List Access := [keep, toPrivate, toPackage, toProtected, toPublic]

/-- The place of a level in the chain. -/
def rank : Access → Nat
  | keep => 0
  | toPrivate => 1
  | toPackage => 2
  | toProtected => 3
  | toPublic => 4

instance : Ord Access := ⟨fun a b => compare a.rank b.rank⟩

/-- The wider of two levels. -/
instance : Max Access := ⟨fun a b => if a.rank < b.rank then b else a⟩

/-- The access bit of a level; none is set for the level of the package. -/
def bits? : Access → Option Flags
  | keep => none
  | toPrivate => some Flags.privateBit
  | toPackage => some 0
  | toProtected => some Flags.protectedBit
  | toPublic => some Flags.publicBit

/-- Puts the level in place of the one that the flags have. -/
def apply (a : Access) (flags : Flags) : Flags :=
  match a.bits? with
  | none => flags
  | some bits => flags &&& ~~~Flags.accessBits ||| bits

/-- How a level is written in a listing. -/
def label : Access → String
  | keep => "none"
  | toPrivate => "private"
  | toPackage => "package-private"
  | toProtected => "protected"
  | toPublic => "public"

theorem rank_max (a b : Access) : (max a b).rank = max a.rank b.rank := by
  cases a <;> cases b <;> rfl

theorem rank_inj {a b : Access} (h : a.rank = b.rank) : a = b := by
  cases a <;> cases b <;> simp_all [rank]

end Access

/-! ## Finality -/

/-- The change of the final flag that is asked for. -/
inductive Finality where
  /-- The flag stays as it is. -/
  | keep
  | add
  | remove
  deriving DecidableEq, Hashable, Repr

namespace Finality

/-- All changes, in the order of the chain. -/
def all : List Finality := [keep, add, remove]

/-- The place of a change in the chain. -/
def rank : Finality → Nat
  | keep => 0
  | add => 1
  | remove => 2

instance : Ord Finality := ⟨fun a b => compare a.rank b.rank⟩

/-- Of two changes, taking the flag away wins over setting it, and either over
    leaving it. -/
instance : Max Finality := ⟨fun a b => if a.rank < b.rank then b else a⟩

/-- Sets or clears the bits of `bit`. -/
def apply (f : Finality) (flags bit : Flags) : Flags :=
  match f with
  | keep => flags
  | add => flags ||| bit
  | remove => flags &&& ~~~bit

/-- How a change is written in a listing. -/
def label : Finality → String
  | keep => "none"
  | add => "add"
  | remove => "remove"

theorem rank_max (a b : Finality) : (max a b).rank = max a.rank b.rank := by
  cases a <;> cases b <;> rfl

theorem rank_inj {a b : Finality} (h : a.rank = b.rank) : a = b := by
  cases a <;> cases b <;> simp_all [rank]

end Finality

end Openness
