import Openness.SortedMap

/-!
# Rosters

A roster holds things that carry a name, at most one of each name, and lists
them by name. That a thing is held under its own name is part of the type.

* `find?_put`, `find?_remove`: a change is seen under its own name only;
* `name_of_find?`: what is found under a name carries that name.
-/

namespace Openness

universe u

/-- Things that carry a name. -/
class Named (α : Type u) where
  /-- The name. -/
  name : α → String

/-- A collection of named things, at most one of each name. -/
structure Roster (α : Type u) [Named α] where
  /-- The things by name. -/
  byName : SortedMap String α
  /-- Each is held under its own name. -/
  named : ∀ n a, byName.find? n = some a → Named.name a = n

namespace Roster

variable {α : Type u} [Named α]

instance : EmptyCollection (Roster α) := ⟨⟨∅, by simp⟩⟩

instance : Inhabited (Roster α) := ⟨∅⟩

instance [DecidableEq α] : DecidableEq (Roster α) := fun r s =>
  decidable_of_iff (r.byName = s.byName) (by cases r; cases s; simp)

/-- The thing of a name. -/
def find? (r : Roster α) (n : String) : Option α := r.byName.find? n

/-- Whether there is a thing of a name. -/
def contains (r : Roster α) (n : String) : Bool := (r.find? n).isSome

/-- Adds a thing, in place of the one with its name. -/
def put (r : Roster α) (a : α) : Roster α where
  byName := r.byName.insert (Named.name a) a
  named n b h := by
    rw [SortedMap.find?_insert] at h
    split at h
    · rename_i hn
      cases h
      exact hn.symm
    · exact r.named n b h

/-- Takes out the thing of a name. -/
def remove (r : Roster α) (n : String) : Roster α where
  byName := r.byName.erase n
  named m b h := by
    rw [SortedMap.find?_erase] at h
    split at h
    · cases h
    · exact r.named m b h

/-- Keeps some of the things only. -/
def filter (p : α → Bool) (r : Roster α) : Roster α where
  byName := r.byName.filterValues p
  named m b h := by
    rw [SortedMap.find?_filterValues, Option.filter_eq_some_iff] at h
    exact r.named m b h.1

/-- The things, by increasing name. -/
def toList (r : Roster α) : List α := r.byName.values

/-- The names, increasing. -/
def names (r : Roster α) : List String := r.byName.keys

/-- How many things there are. -/
def size (r : Roster α) : Nat := r.byName.size

/-- Whether there is nothing. -/
def isEmpty (r : Roster α) : Bool := r.byName.isEmpty

/-- The roster of a list of things, of which the last one of a name counts. -/
def ofList (l : List α) : Roster α := l.foldl put ∅

@[simp] theorem find?_empty (n : String) : (∅ : Roster α).find? n = none := rfl

theorem find?_put (r : Roster α) (a : α) (n : String) :
    (r.put a).find? n = if n = Named.name a then some a else r.find? n :=
  SortedMap.find?_insert ..

theorem find?_remove (r : Roster α) (n m : String) :
    (r.remove n).find? m = if m = n then none else r.find? m :=
  SortedMap.find?_erase ..

theorem find?_filter (p : α → Bool) (r : Roster α) (n : String) :
    (r.filter p).find? n = (r.find? n).filter p :=
  SortedMap.find?_filterValues ..

/-- What is found under a name carries that name. -/
theorem name_of_find? {r : Roster α} {n : String} {a : α} (h : r.find? n = some a) :
    Named.name a = n :=
  r.named n a h

theorem mem_toList {r : Roster α} {a : α} :
    a ∈ r.toList ↔ r.find? (Named.name a) = some a := by
  simp only [toList, SortedMap.values, List.mem_map, Prod.exists, exists_eq_right,
    SortedMap.mem_toList]
  constructor
  · rintro ⟨n, h⟩
    exact r.named n a h ▸ h
  · intro h
    exact ⟨_, h⟩

theorem mem_names {r : Roster α} {n : String} : n ∈ r.names ↔ r.contains n = true :=
  SortedMap.mem_keys

/-- Rosters with the same look-ups are equal. -/
theorem ext_find? {r s : Roster α} (h : ∀ n, r.find? n = s.find? n) : r = s := by
  have := SortedMap.ext_find? h
  cases r
  cases s
  cases this
  rfl

end Roster

end Openness
