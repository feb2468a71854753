/-!
# Sorted maps

A finite map that lists its entries by increasing key (`SortedMap`). The order
is part of the type, so a map has one representation only: two maps with the
same look-ups are equal (`ext_find?`), and listing a map is deterministic.

* `find?_insert`, `find?_erase`: a change is seen at its own key and nowhere
  else;
* `mem_toList`: the entries listed are those that look-up finds;
* `find?_mapValues`: changing the values keeps the keys.
-/

namespace Openness

universe u v w

/-- Keys: a type with a lawful comparison. -/
class Key (κ : Type u) extends Ord κ, Std.TransOrd κ, Std.LawfulEqOrd κ

instance : Key String where

/-- A finite map, as the list of its entries by increasing key. -/
structure SortedMap (κ : Type u) (α : Type v) [Key κ] where
  /-- The entries, by increasing key. -/
  toList : List (κ × α)
  /-- The keys increase strictly. -/
  increasing : toList.Pairwise fun a b => compare a.1 b.1 = .lt
  deriving DecidableEq

namespace SortedMap

variable {κ : Type u} {α : Type v} {β : Type w} [Key κ]

/-! ## Lists of entries -/

/-- Puts an entry at its place in an increasing list, in place of the one with
    the same key. -/
def place (k : κ) (a : α) : List (κ × α) → List (κ × α)
  | [] => [(k, a)]
  | (j, b) :: l =>
    match compare k j with
    | .lt => (k, a) :: (j, b) :: l
    | .eq => (k, a) :: l
    | .gt => (j, b) :: place k a l

theorem mem_place {k : κ} {a : α} {l : List (κ × α)} {e : κ × α} (h : e ∈ place k a l) :
    e = (k, a) ∨ e ∈ l := by
  induction l with
  | nil => simpa [place] using h
  | cons x l ih =>
    simp only [place] at h
    split at h
    · simpa using h
    · rcases List.mem_cons.1 h with h | h
      · exact .inl h
      · exact .inr (List.mem_cons_of_mem _ h)
    · rcases List.mem_cons.1 h with h | h
      · exact .inr (h ▸ List.mem_cons_self)
      · exact (ih h).imp id (List.mem_cons_of_mem _)

theorem place_increasing {k : κ} {a : α} {l : List (κ × α)}
    (hl : l.Pairwise fun a b => compare a.1 b.1 = .lt) :
    (place k a l).Pairwise fun a b => compare a.1 b.1 = .lt := by
  induction l with
  | nil => simp [place]
  | cons x l ih =>
    obtain ⟨hx, hl'⟩ := List.pairwise_cons.1 hl
    simp only [place]
    split
    · rename_i hk
      refine List.pairwise_cons.2 ⟨fun e he => ?_, hl⟩
      rcases List.mem_cons.1 he with rfl | he
      · exact hk
      · exact Std.TransCmp.lt_trans hk (hx e he)
    · rename_i hk
      have hk := Std.LawfulEqOrd.eq_of_compare hk
      exact List.pairwise_cons.2 ⟨fun e he => hk ▸ hx e he, hl'⟩
    · rename_i hk
      refine List.pairwise_cons.2 ⟨fun e he => ?_, ih hl'⟩
      rcases mem_place he with rfl | he
      · exact Std.OrientedCmp.lt_of_gt hk
      · exact hx e he

/-- Two increasing lists with the same members are equal. -/
theorem eq_of_mem_iff {l l' : List (κ × α)}
    (hl : l.Pairwise fun a b => compare a.1 b.1 = .lt)
    (hl' : l'.Pairwise fun a b => compare a.1 b.1 = .lt) (h : ∀ e, e ∈ l ↔ e ∈ l') :
    l = l' := by
  induction l generalizing l' with
  | nil => exact (List.eq_nil_iff_forall_not_mem.2 fun e he => by simpa using (h e).2 he).symm
  | cons x l ih =>
    cases l' with
    | nil => simpa using (h x).1 List.mem_cons_self
    | cons y l' =>
      obtain ⟨hx, hl⟩ := List.pairwise_cons.1 hl
      obtain ⟨hy, ht⟩ := List.pairwise_cons.1 hl'
      have irrefl (e : κ × α) : compare e.1 e.1 ≠ .lt := by simp
      -- Each list starts with its least entry, and each holds that of the other.
      have hxy : x = y := by
        rcases List.mem_cons.1 ((h x).1 List.mem_cons_self) with e | m
        · exact e
        rcases List.mem_cons.1 ((h y).2 List.mem_cons_self) with e | n
        · exact e.symm
        exact absurd (Std.TransCmp.lt_trans (hx y n) (hy x m)) (irrefl x)
      subst hxy
      congr 1
      refine ih hl ht fun e => ⟨fun he => ?_, fun he => ?_⟩
      · refine (List.mem_cons.1 ((h e).1 (List.mem_cons_of_mem _ he))).resolve_left ?_
        rintro rfl
        exact irrefl _ (hx _ he)
      · refine (List.mem_cons.1 ((h e).2 (List.mem_cons_of_mem _ he))).resolve_left ?_
        rintro rfl
        exact irrefl _ (hy _ he)

variable [DecidableEq κ]

/-- The value that a list of entries gives to a key first. -/
def lookup (k : κ) : List (κ × α) → Option α
  | [] => none
  | (j, a) :: l => if k = j then some a else lookup k l

theorem lookup_place (k j : κ) (a : α) (l : List (κ × α)) :
    lookup j (place k a l) = if j = k then some a else lookup j l := by
  induction l with
  | nil => simp [place, lookup]
  | cons x l ih =>
    simp only [place]
    split
    · simp [lookup]
    · rename_i hk
      have hk := Std.LawfulEqOrd.eq_of_compare hk
      simp only [lookup, hk]
      split <;> rfl
    · rename_i hk
      simp only [lookup, ih]
      split
      · rename_i hj
        have hne : j ≠ k := fun h => by simp [← h, hj] at hk
        simp [hne]
      · rfl

theorem lookup_eq_some_iff {l : List (κ × α)}
    (hl : l.Pairwise fun a b => compare a.1 b.1 = .lt) {k : κ} {a : α} :
    lookup k l = some a ↔ (k, a) ∈ l := by
  induction l with
  | nil => simp [lookup]
  | cons x l ih =>
    obtain ⟨hx, hl'⟩ := List.pairwise_cons.1 hl
    simp only [lookup]
    split
    · rename_i hk
      constructor
      · rintro ⟨⟩
        exact hk ▸ List.mem_cons_self
      · intro h
        rcases List.mem_cons.1 h with h | h
        · simp [← h]
        · simpa [← hk] using hx _ h
    · rename_i hk
      rw [ih hl', List.mem_cons]
      exact ⟨.inr, fun h => h.resolve_left fun h => hk (congrArg Prod.fst h)⟩

/-! ## Maps -/

/-- The map without entries. -/
def empty : SortedMap κ α := ⟨[], .nil⟩

instance : EmptyCollection (SortedMap κ α) := ⟨empty⟩

instance : Inhabited (SortedMap κ α) := ⟨∅⟩

/-- The number of entries. -/
def size (m : SortedMap κ α) : Nat := m.toList.length

/-- Whether there are no entries. -/
def isEmpty (m : SortedMap κ α) : Bool := m.toList.isEmpty

/-- The keys, increasing. -/
def keys (m : SortedMap κ α) : List κ := m.toList.map Prod.fst

/-- The values, by increasing key. -/
def values (m : SortedMap κ α) : List α := m.toList.map Prod.snd

/-- The value of a key. -/
def find? (m : SortedMap κ α) (k : κ) : Option α := lookup k m.toList

/-- The map with a value for a key, in place of the one it may have had. -/
def insert (m : SortedMap κ α) (k : κ) (a : α) : SortedMap κ α :=
  ⟨place k a m.toList, place_increasing m.increasing⟩

/-- The map without a key. -/
def erase (m : SortedMap κ α) (k : κ) : SortedMap κ α :=
  ⟨m.toList.filter fun e => k ≠ e.1, m.increasing.filter _⟩

/-- The map with every value changed. -/
def mapValues (f : α → β) (m : SortedMap κ α) : SortedMap κ β :=
  ⟨m.toList.map fun e => (e.1, f e.2), List.pairwise_map.2 m.increasing⟩

/-- The map with the entries of some values only. -/
def filterValues (p : α → Bool) (m : SortedMap κ α) : SortedMap κ α :=
  ⟨m.toList.filter fun e => p e.2, m.increasing.filter _⟩

/-- The map of a list of entries, of which the last one for a key counts. -/
def ofList (l : List (κ × α)) : SortedMap κ α :=
  l.foldl (fun m e => m.insert e.1 e.2) ∅

/-! ## Look-up -/

@[simp] theorem find?_empty (k : κ) : (∅ : SortedMap κ α).find? k = none := rfl

theorem find?_insert (m : SortedMap κ α) (k j : κ) (a : α) :
    (m.insert k a).find? j = if j = k then some a else m.find? j :=
  lookup_place k j a m.toList

/-- The entries listed are those that look-up finds. -/
theorem mem_toList {m : SortedMap κ α} {k : κ} {a : α} :
    (k, a) ∈ m.toList ↔ m.find? k = some a :=
  (lookup_eq_some_iff m.increasing).symm

theorem find?_erase (m : SortedMap κ α) (k j : κ) :
    (m.erase k).find? j = if j = k then none else m.find? j := by
  apply Option.ext
  intro a
  rw [← mem_toList, erase, List.mem_filter, mem_toList]
  split
  · rename_i h
    simp [h]
  · rename_i h
    exact ⟨And.left, fun h' => ⟨h', by simpa using fun e => h e.symm⟩⟩

theorem find?_mapValues (f : α → β) (m : SortedMap κ α) (k : κ) :
    (m.mapValues f).find? k = (m.find? k).map f := by
  simp only [find?, mapValues]
  induction m.toList with
  | nil => rfl
  | cons x l ih =>
    simp only [List.map_cons, lookup]
    split
    · rfl
    · exact ih

theorem find?_filterValues (p : α → Bool) (m : SortedMap κ α) (k : κ) :
    (m.filterValues p).find? k = (m.find? k).filter p := by
  apply Option.ext
  intro a
  rw [← mem_toList, filterValues, List.mem_filter, mem_toList, Option.filter_eq_some_iff]

theorem mem_keys {m : SortedMap κ α} {k : κ} : k ∈ m.keys ↔ (m.find? k).isSome := by
  simp [keys, mem_toList, Option.isSome_iff_exists]

omit [DecidableEq κ] in
/-- No key is listed twice. -/
theorem nodup_keys (m : SortedMap κ α) : m.keys.Nodup := by
  refine List.pairwise_map.2 (m.increasing.imp fun {a b} hlt heq => ?_)
  rw [heq, Std.ReflOrd.compare_self] at hlt
  cases hlt

theorem isEmpty_iff {m : SortedMap κ α} : m.isEmpty = true ↔ ∀ k, m.find? k = none := by
  rw [isEmpty, List.isEmpty_iff]
  constructor
  · intro h k
    simp [find?, h, lookup]
  · intro h
    refine List.eq_nil_iff_forall_not_mem.2 fun e he => ?_
    have := mem_toList.1 (show (e.1, e.2) ∈ m.toList from he)
    simp [h] at this

/-- Maps with the same look-ups are equal. -/
theorem ext_find? {m n : SortedMap κ α} (h : ∀ k, m.find? k = n.find? k) : m = n := by
  have : m.toList = n.toList := eq_of_mem_iff m.increasing n.increasing fun e => by
    rw [show e = (e.1, e.2) from rfl, mem_toList, mem_toList, h]
  cases m
  cases n
  cases this
  rfl

end SortedMap

end Openness
