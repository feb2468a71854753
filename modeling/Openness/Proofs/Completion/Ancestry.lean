import Mathlib.Data.Set.Card
import Mathlib.Logic.Relation
import Openness.Hierarchy

/-!
# Ancestry

The known parents of classes as a relation (`Hierarchy.IsParent`). A hierarchy
is acyclic if no class is an ancestor of its own. Whoever goes up from a class
of an acyclic hierarchy meets fewer ancestors with every step
(`Hierarchy.height_lt`), so that

* what holds of a class once it holds of its parents holds of all classes
  (`Hierarchy.Acyclic.induction`);
* a way up is no longer than the hierarchy is large (`Hierarchy.height_le_size`).

That a hierarchy is acyclic is seen from any numbering of the names under which
parents come first (`Hierarchy.acyclic_of_rank`).
-/

namespace Openness

namespace Hierarchy

/-- `p` is a known parent of `c`. -/
def IsParent (h : Hierarchy) (p c : ClassHeader) : Prop := p ∈ h.parents c

/-- `a` is a known ancestor of `c`. -/
abbrev IsAncestor (h : Hierarchy) (a c : ClassHeader) : Prop := Relation.TransGen h.IsParent a c

/-- No class is an ancestor of its own. -/
def Acyclic (h : Hierarchy) : Prop := ∀ c, ¬h.IsAncestor c c

/-- The class is held by the hierarchy. -/
def Knows (h : Hierarchy) (c : ClassHeader) : Prop := h.find? c.name = some c

variable {h : Hierarchy} {a c d p : ClassHeader}

instance : Decidable (h.Knows c) := inferInstanceAs (Decidable (_ = _))

theorem knows_of_find? {n : String} (hc : h.find? n = some c) : h.Knows c := by
  have : c.name = n := Roster.name_of_find? hc
  rw [Knows, this, hc]

/-- The known classes among some names. -/
theorem mem_filterMap_iff {ns : List String} :
    c ∈ ns.filterMap h.find? ↔ c.name ∈ ns ∧ h.Knows c := by
  rw [List.mem_filterMap]
  constructor
  · rintro ⟨n, hn, hc⟩
    obtain rfl : c.name = n := Roster.name_of_find? hc
    exact ⟨hn, hc⟩
  · rintro ⟨hn, hc⟩
    exact ⟨_, hn, hc⟩

theorem knows_of_mem_filterMap {ns : List String} (hc : c ∈ ns.filterMap h.find?) : h.Knows c :=
  (mem_filterMap_iff.1 hc).2

theorem IsParent.knows (hp : h.IsParent p c) : h.Knows p := (mem_parents.1 hp).2

theorem IsAncestor.knows (ha : h.IsAncestor a c) : h.Knows a := by
  obtain ⟨_, hp, -⟩ := Relation.TransGen.head'_iff.1 ha
  exact hp.knows

/-- Known classes of one name are the same. -/
theorem Knows.eq (hc : h.Knows c) (hd : h.Knows d) (e : c.name = d.name) : c = d := by
  rw [Knows] at hc hd
  rw [e, hd] at hc
  exact (Option.some.inj hc).symm

/-- An ancestor goes by another name. -/
theorem IsAncestor.name_ne (acyclic : h.Acyclic) (hc : h.Knows c) (ha : h.IsAncestor a c) :
    a.name ≠ c.name := by
  intro e
  rw [ha.knows.eq hc e] at ha
  exact acyclic c ha

/-! ## Heights -/

/-- The number of known ancestors. -/
noncomputable def height (h : Hierarchy) (c : ClassHeader) : Nat := {a | h.IsAncestor a c}.ncard

theorem ancestors_subset (h : Hierarchy) (c : ClassHeader) :
    {a | h.IsAncestor a c} ⊆ {a | a ∈ h.toList} :=
  fun _ ha => Roster.mem_toList.2 (IsAncestor.knows ha)

theorem finite_ancestors (h : Hierarchy) (c : ClassHeader) : {a | h.IsAncestor a c}.Finite :=
  (List.finite_toSet h.toList).subset (ancestors_subset h c)

theorem height_le_size (h : Hierarchy) (c : ClassHeader) : h.height c ≤ h.size := by
  classical
  calc h.height c ≤ {a | a ∈ h.toList}.ncard :=
        Set.ncard_le_ncard (ancestors_subset h c) (List.finite_toSet h.toList)
    _ = h.toList.toFinset.card := by rw [← List.coe_toFinset, Set.ncard_coe_finset]
    _ ≤ h.toList.length := h.toList.toFinset_card_le
    _ = h.size := by simp [Roster.toList, Roster.size, SortedMap.values, SortedMap.size]

/-- A parent has fewer ancestors than the class, as it is none of its own. -/
theorem height_lt (acyclic : h.Acyclic) (hp : h.IsParent p c) : h.height p < h.height c := by
  -- The ancestors of the parent are some of those of the class, and the parent
  -- itself is missing from them.
  refine Set.ncard_lt_ncard ⟨fun a ha => ha.tail hp, fun hsub => ?_⟩ (finite_ancestors h c)
  exact acyclic p (hsub (Relation.TransGen.single hp))

/-- What holds of a class once it holds of its known parents holds of all
    classes. -/
theorem Acyclic.induction (acyclic : h.Acyclic) {motive : ClassHeader → Prop}
    (step : ∀ c, (∀ p, h.IsParent p c → motive p) → motive c) (c : ClassHeader) : motive c :=
  (Subrelation.wf (fun hp => height_lt acyclic hp) (measure h.height).wf).induction c step

/-! ## Examples of acyclic hierarchies -/

/-- A hierarchy is acyclic if parents come first under some numbering. -/
theorem acyclic_of_rank (rank : String → Nat)
    (hrank : ∀ c ∈ h.toList, ∀ p ∈ h.parents c, rank p.name < rank c.name) : h.Acyclic := by
  have lt {a c : ClassHeader} (ha : h.IsAncestor a c) (hc : h.Knows c) :
      rank a.name < rank c.name := by
    induction ha with
    | single hp => exact hrank _ (Roster.mem_toList.2 hc) _ hp
    | tail _ hp ih => exact (ih hp.knows).trans (hrank _ (Roster.mem_toList.2 hc) _ hp)
  exact fun c hc => lt_irrefl _ (lt hc hc.knows)

/-- A method without parameters and result. -/
def run : Signature := ⟨"run", "()V"⟩

/-- A class that declares `run` as public. -/
def runner (name : String) (interfaces : List String) : ClassHeader :=
  { name, interfaces, methods := SortedMap.ofList [(run, Flags.publicBit)] }

/-- A class with two parents that have their parent in common. -/
def diamond : Hierarchy :=
  Roster.ofList [runner "a/Top" [], runner "a/Left" ["a/Top"], runner "a/Right" ["a/Top"],
    runner "a/Bottom" ["a/Left", "a/Right"]]

theorem diamond_acyclic : diamond.Acyclic :=
  acyclic_of_rank (fun n => if n = "a/Top" then 0 else if n = "a/Bottom" then 2 else 1) (by decide)

end Hierarchy

end Openness
