import Mathlib.Data.Nat.Bitwise
import Openness.Hierarchy
import Openness.Text.Separators

/-!
# Which methods override

Whether a method of a class overrides that of a parent is a matter of the two declarations
and of the two packages (`ClassHeader.OverridesByRule`). The rule is not symmetric: both
declarations have to be virtual, but only that of the parent has to be seen, so it makes no
difference how open that of the child is (`ClassHeader.overrides_by_rule`).

Flags are looked at as words, of which several bits are tested at once
(`Flags.hasAny_or_iff`). Packages are found by going through a name from its end, and are
what stands before the last slash (`ClassHeader.packageOf_eq_iff`).
-/

namespace Openness

/-! ## Flags -/

namespace Flags

/-- Everyone may use the member. -/
def IsPublic (flags : Flags) : Prop := flags.toNat.testBit 0 = true

/-- Its own class alone may use the member. -/
def IsPrivate (flags : Flags) : Prop := flags.toNat.testBit 1 = true

/-- Subclasses may use the member, as well as the package. -/
def IsProtected (flags : Flags) : Prop := flags.toNat.testBit 2 = true

/-- The member belongs to its class rather than to the objects of it. -/
def IsStatic (flags : Flags) : Prop := flags.toNat.testBit 3 = true

/-- Words have a bit in common exactly if they do not mask each other out. -/
theorem hasAny_iff {flags mask : Flags} :
    flags.hasAny mask = true ↔
      ∃ i, flags.toNat.testBit i = true ∧ mask.toNat.testBit i = true := by
  have hand (i : Nat) : (flags &&& mask).toNat.testBit i = true ↔
      flags.toNat.testBit i = true ∧ mask.toNat.testBit i = true := by
    rw [UInt16.toNat_and, Nat.testBit_and, Bool.and_eq_true]
  simp only [← hand]
  rw [hasAny, bne_iff_ne, ne_eq, ← UInt16.toNat_inj]
  constructor
  · exact Nat.exists_testBit_of_ne_zero
  · rintro ⟨i, hi⟩ hzero
    rw [hzero] at hi
    exact Bool.false_ne_true ((Nat.zero_testBit i).symm.trans hi)

/-- Testing for two bits at once. -/
theorem hasAny_or_iff {flags a b : Flags} {i j : Nat} (ha : a.toNat = 2 ^ i)
    (hb : b.toNat = 2 ^ j) :
    flags.hasAny (a ||| b) = true ↔
      flags.toNat.testBit i = true ∨ flags.toNat.testBit j = true := by
  rw [hasAny_iff, UInt16.toNat_or, ha, hb]
  simp only [Nat.testBit_or, Nat.testBit_two_pow, Bool.or_eq_true, decide_eq_true_eq,
    and_or_left, exists_or, exists_eq_right']

end Flags

/-! ## Packages -/

/-- The package of a class name: what stands before the last slash, and nothing if there is
    none. -/
inductive InPackage : String → String → Prop
  | root {name : String} : '/' ∉ name.toList → InPackage name ""
  | nested {package simple : String} : '/' ∉ simple.toList →
      InPackage (package ++ "/" ++ simple) package

/-- Every class is in a package. -/
theorem exists_inPackage (name : String) : ∃ package, InPackage name package := by
  by_cases h : '/' ∈ name.toList
  · -- The last slash is the first one from the end.
    obtain ⟨simple, package, hname, hsimple⟩ :=
      List.eq_append_cons_of_mem (List.mem_reverse.2 h)
    have hname : name = String.ofList package.reverse ++ "/" ++ String.ofList simple.reverse := by
      rw [← String.toList_inj, ← List.reverse_reverse name.toList, hname]
      simp
    rw [hname]
    exact ⟨_, .nested (by simpa using hsimple)⟩
  · exact ⟨"", .root h⟩

namespace ClassHeader

/-- Going through a name from its end finds the package. -/
theorem packageOf_of_inPackage {name package : String} (h : InPackage name package) :
    packageOf name = package := by
  rw [packageOf]
  cases h with
  | root hname =>
    rw [Text.dropWhile_of_not_mem (List.mem_reverse.not.2 hname)]
    rfl
  | @nested package simple hsimple =>
    -- From the end, the simple name comes first, and then the slash.
    have hreverse : (package ++ "/" ++ simple).toList.reverse =
        simple.toList.reverse ++ '/' :: package.toList.reverse := by
      simp
    rw [hreverse, Text.dropWhile_append_separator (List.mem_reverse.not.2 hsimple), List.tail_cons,
      List.reverse_reverse, String.ofList_toList]

theorem packageOf_eq_iff {name package : String} :
    packageOf name = package ↔ InPackage name package := by
  refine ⟨fun h => ?_, packageOf_of_inPackage⟩
  obtain ⟨package', h'⟩ := exists_inPackage name
  exact (packageOf_of_inPackage h').symm.trans h ▸ h'

/-- Packages that begin alike are different, and a package may be empty in two ways. -/
example : packageOf "a/b/C" = "a/b" ∧ packageOf "a/bC" = "a" ∧ packageOf "/C" = "" ∧
    packageOf "C" = "" := by
  decide

/-! ## The rule -/

/-- A method of `child` overrides that of `parent`, as both declare it. -/
structure OverridesByRule (child : ClassHeader) (m : Signature) (parent : ClassHeader)
    (own inherited : Flags) : Prop where
  child_declares : child.methods.find? m = some own
  parent_declares : parent.methods.find? m = some inherited
  no_initializer : m.name ≠ "<init>" ∧ m.name ≠ "<clinit>"
  own_virtual : ¬own.IsPrivate ∧ ¬own.IsStatic
  inherited_virtual : ¬inherited.IsPrivate ∧ ¬inherited.IsStatic
  /-- The child sees the declaration of the parent. -/
  seen : inherited.IsPublic ∨ inherited.IsProtected ∨
    ∃ package, InPackage child.name package ∧ InPackage parent.name package

theorem isVirtual_iff {flags : Flags} :
    isVirtual flags = true ↔ ¬flags.IsPrivate ∧ ¬flags.IsStatic := by
  rw [isVirtual, Bool.not_eq_true', ← Bool.not_eq_true,
    Flags.hasAny_or_iff (i := 3) (j := 1) rfl rfl, not_or, and_comm]
  rfl

/-- Classes are of one package exactly if some package is that of both. -/
theorem package_eq_iff {c d : ClassHeader} :
    c.package = d.package ↔ ∃ package, InPackage d.name package ∧ InPackage c.name package := by
  simp only [← packageOf_eq_iff, exists_eq_left']
  rfl

theorem isVisibleTo_iff {parent child : ClassHeader} {flags : Flags} :
    parent.isVisibleTo child flags = true ↔ flags.IsPublic ∨ flags.IsProtected ∨
      ∃ package, InPackage child.name package ∧ InPackage parent.name package := by
  rw [isVisibleTo, Bool.or_eq_true, decide_eq_true_eq,
    Flags.hasAny_or_iff (i := 0) (j := 2) rfl rfl, or_assoc, package_eq_iff]
  rfl

theorem isInitializer_eq_false_iff {m : Signature} :
    m.isInitializer = false ↔ m.name ≠ "<init>" ∧ m.name ≠ "<clinit>" := by
  simp [Signature.isInitializer]

/-- A method overrides another one exactly if it does so by the rule. -/
theorem overrides_iff {child parent : ClassHeader} {m : Signature} :
    child.overrides m parent = true ↔
      ∃ own inherited, OverridesByRule child m parent own inherited := by
  constructor
  · intro h
    rw [overrides] at h
    split at h
    · rename_i own inherited hown hinherited
      simp only [Bool.and_eq_true, Bool.not_eq_true', isVirtual_iff, isVisibleTo_iff,
        isInitializer_eq_false_iff] at h
      obtain ⟨⟨⟨hown', hname⟩, hinherited'⟩, hseen⟩ := h
      exact ⟨own, inherited, hown, hinherited, hname, hown', hinherited', hseen⟩
    · cases h
  · rintro ⟨own, inherited, h⟩
    rw [overrides, h.child_declares, h.parent_declares]
    simp only [Bool.and_eq_true, Bool.not_eq_true', isVirtual_iff, isVisibleTo_iff,
      isInitializer_eq_false_iff]
    exact ⟨⟨⟨h.own_virtual, h.no_initializer⟩, h.inherited_virtual⟩, h.seen⟩

/-! ## What plays no part -/

/-- Two classes are the same to the rule as children: they have one name, and if they declare
    the method then both or neither as private and both or neither as static. -/
structure SameAsChild (m : Signature) (c d : ClassHeader) : Prop where
  name : c.name = d.name
  declared : (c.methods.find? m).map (fun f => (f.toNat.testBit 1, f.toNat.testBit 3)) =
    (d.methods.find? m).map fun f => (f.toNat.testBit 1, f.toNat.testBit 3)

/-- Two classes are the same to the rule as parents: they have one name, and declare the
    method alike if at all. -/
structure SameAsParent (m : Signature) (c d : ClassHeader) : Prop where
  name : c.name = d.name
  declared : c.methods.find? m = d.methods.find? m

theorem SameAsChild.symm {m : Signature} {c d : ClassHeader} (h : SameAsChild m c d) :
    SameAsChild m d c :=
  ⟨h.name.symm, h.declared.symm⟩

theorem SameAsParent.symm {m : Signature} {c d : ClassHeader} (h : SameAsParent m c d) :
    SameAsParent m d c :=
  ⟨h.name.symm, h.declared.symm⟩

/-- Only what the rule looks at decides. -/
theorem OverridesByRule.congr {child child' parent parent' : ClassHeader} {m : Signature}
    {own inherited : Flags} (h : OverridesByRule child m parent own inherited)
    (hchild : SameAsChild m child child') (hparent : SameAsParent m parent parent') :
    ∃ own', OverridesByRule child' m parent' own' inherited := by
  have hdeclared := hchild.declared
  rw [h.child_declares, Option.map_some, eq_comm, Option.map_eq_some_iff] at hdeclared
  obtain ⟨own', hown', hbits⟩ := hdeclared
  obtain ⟨hprivate, hstatic⟩ := Prod.mk.inj hbits
  refine ⟨own', hown', hparent.declared ▸ h.parent_declares, h.no_initializer, ?_,
    h.inherited_virtual, hchild.name ▸ hparent.name ▸ h.seen⟩
  rw [Flags.IsPrivate, Flags.IsStatic, hprivate, hstatic]
  exact h.own_virtual

/-- Methods override by the rule. So neither how open the declaration of the child is plays a
    part, nor what else the two classes declare, extend or implement. -/
theorem overrides_by_rule (child parent : ClassHeader) (m : Signature) :
    (child.overrides m parent = true ↔
        ∃ own inherited, OverridesByRule child m parent own inherited) ∧
      ∀ child' parent', SameAsChild m child child' → SameAsParent m parent parent' →
        child'.overrides m parent' = child.overrides m parent := by
  refine ⟨overrides_iff, fun child' parent' hchild hparent => ?_⟩
  rw [Bool.eq_iff_iff, overrides_iff, overrides_iff]
  constructor
  · rintro ⟨own', inherited, h⟩
    obtain ⟨own, h⟩ := h.congr hchild.symm hparent.symm
    exact ⟨own, inherited, h⟩
  · rintro ⟨own, inherited, h⟩
    obtain ⟨own', h⟩ := h.congr hchild hparent
    exact ⟨own', inherited, h⟩

/-- A method that the package may use. -/
def packageRun : ClassHeader where
  name := "a/b/Base"
  methods := .ofList [(⟨"run", "()V"⟩, 0)]

/-- A class with the same method. -/
def plainRunner : ClassHeader where
  name := "a/b/Runner"
  methods := .ofList [(⟨"run", "()V"⟩, 0)]

/-- The class under the same name, with parents and further methods. The method is a public and
    a protected one at once, and final. -/
def busyRunner : ClassHeader where
  name := "a/b/Runner"
  superclass := some "a/b/Base"
  interfaces := ["a/Runnable", "a/Runnable"]
  methods := .ofList [(⟨"run", "()V"⟩, 0x0015), (⟨"run", "(I)V"⟩, 0x000A), (⟨"<init>", "()V"⟩, 1)]

/-- The classes are the same to the rule, and both override the method. -/
theorem busyRunner_overrides :
    SameAsChild ⟨"run", "()V"⟩ plainRunner busyRunner ∧
      SameAsParent ⟨"run", "()V"⟩ packageRun packageRun ∧
      plainRunner.overrides ⟨"run", "()V"⟩ packageRun = true ∧
      busyRunner.overrides ⟨"run", "()V"⟩ packageRun =
        plainRunner.overrides ⟨"run", "()V"⟩ packageRun := by
  have hchild : SameAsChild ⟨"run", "()V"⟩ plainRunner busyRunner := ⟨rfl, by decide⟩
  have hparent : SameAsParent ⟨"run", "()V"⟩ packageRun packageRun := ⟨rfl, rfl⟩
  exact ⟨hchild, hparent, by decide, (overrides_by_rule _ _ _).2 _ _ hchild hparent⟩

end ClassHeader

end Openness
