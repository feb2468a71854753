import Openness.SortedMap
import Openness.Transform

/-!
# Slots

A table of transforms in which every key has a slot and almost all slots are
neutral (`Slots`). Only the others are stored, which is part of the type, so a
table is the same thing as the function that looks its slots up (`ext_get`).

* `get_set`, `get_join`: a change is seen in its own slot only;
* `get_union`: tables are joined slot by slot;
* `find?_eq`: a slot is stored exactly when it is not neutral.
-/

namespace Openness

universe u

/-- A table of transforms that are neutral but for finitely many keys. -/
structure Slots (κ : Type u) [Key κ] [DecidableEq κ] where
  /-- The slots that are not neutral. -/
  stored : SortedMap κ Transform
  /-- No neutral transform is stored. -/
  not_neutral : ∀ k t, stored.find? k = some t → t ≠ .neutral

namespace Slots

variable {κ : Type u} [Key κ] [DecidableEq κ]

instance : EmptyCollection (Slots κ) := ⟨⟨∅, by simp⟩⟩

instance : Inhabited (Slots κ) := ⟨∅⟩

instance : DecidableEq (Slots κ) := fun s t =>
  decidable_of_iff (s.stored = t.stored) (by cases s; cases t; simp)

/-- The transform stored for a key. -/
def find? (s : Slots κ) (k : κ) : Option Transform := s.stored.find? k

/-- The transform in the slot of a key. -/
def get (s : Slots κ) (k : κ) : Transform := (s.find? k).getD .neutral

/-- Puts a transform into a slot, in place of what it holds. -/
def set (s : Slots κ) (k : κ) (t : Transform) : Slots κ :=
  if h : t = .neutral then
    ⟨s.stored.erase k, fun j u hu => by
      rw [SortedMap.find?_erase] at hu
      split at hu
      · cases hu
      · exact s.not_neutral j u hu⟩
  else
    ⟨s.stored.insert k t, fun j u hu => by
      rw [SortedMap.find?_insert] at hu
      split at hu
      · cases hu
        exact h
      · exact s.not_neutral j u hu⟩

/-- Joins a transform into a slot. -/
def join (s : Slots κ) (k : κ) (t : Transform) : Slots κ := s.set k (max (s.get k) t)

/-- The slots that are not neutral, by increasing key. -/
def toList (s : Slots κ) : List (κ × Transform) := s.stored.toList

/-- Joins a list of transforms into their slots. -/
def joinAll (s : Slots κ) (l : List (κ × Transform)) : Slots κ :=
  l.foldl (fun s e => s.join e.1 e.2) s

/-- The tables joined slot by slot. -/
def union (s t : Slots κ) : Slots κ := s.joinAll t.toList

/-- Whether all slots are neutral. -/
def isEmpty (s : Slots κ) : Bool := s.stored.isEmpty

/-! ## Look-up -/

@[simp] theorem get_empty (k : κ) : (∅ : Slots κ).get k = .neutral := rfl

/-- A slot is stored exactly when it is not neutral. -/
theorem find?_eq (s : Slots κ) (k : κ) :
    s.find? k = if s.get k = .neutral then none else some (s.get k) := by
  rw [get]
  cases h : s.find? k with
  | none => simp
  | some t => simp [s.not_neutral k t h]

theorem get_set (s : Slots κ) (k j : κ) (t : Transform) :
    (s.set k t).get j = if j = k then t else s.get j := by
  rw [set]
  split
  · rename_i ht
    rw [get, find?, SortedMap.find?_erase]
    split
    · exact ht.symm
    · rfl
  · rw [get, find?, SortedMap.find?_insert]
    split <;> rfl

theorem get_join (s : Slots κ) (k j : κ) (t : Transform) :
    (s.join k t).get j = if j = k then max (s.get k) t else s.get j :=
  get_set ..

/-- Tables with the same look-ups are equal. -/
theorem ext_get {s t : Slots κ} (h : ∀ k, s.get k = t.get k) : s = t := by
  have : s.stored = t.stored := SortedMap.ext_find? fun k => by
    have hs := s.find?_eq k
    have ht := t.find?_eq k
    rw [h, ← ht] at hs
    exact hs
  cases s
  cases t
  cases this
  rfl

/-- What is stored for a key is what its slot asks for, if that is not neutral. -/
theorem find?_eq_some_iff {s : Slots κ} {k : κ} {t : Transform} :
    s.find? k = some t ↔ s.get k = t ∧ t ≠ .neutral := by
  rw [find?_eq]
  split
  · rename_i h
    simp [h, eq_comm]
  · rename_i h
    constructor
    · rintro ⟨⟩
      exact ⟨rfl, h⟩
    · rintro ⟨rfl, -⟩
      rfl

/-- The entries listed are the slots that are not neutral. -/
theorem mem_toList {s : Slots κ} {k : κ} {t : Transform} :
    (k, t) ∈ s.toList ↔ s.get k = t ∧ t ≠ .neutral :=
  SortedMap.mem_toList.trans find?_eq_some_iff

theorem isEmpty_iff {s : Slots κ} : s.isEmpty = true ↔ ∀ k, s.get k = .neutral := by
  rw [isEmpty, SortedMap.isEmpty_iff]
  refine forall_congr' fun k => ?_
  show s.find? k = none ↔ _
  rw [find?_eq]
  split <;> simp [*]

/-- What a list of transforms asks of a key, joined. -/
def asked (k : κ) : List (κ × Transform) → Transform
  | [] => .neutral
  | e :: l => if k = e.1 then max e.2 (asked k l) else asked k l

theorem get_joinAll (s : Slots κ) (l : List (κ × Transform)) (k : κ) :
    (s.joinAll l).get k = max (s.get k) (asked k l) := by
  induction l generalizing s with
  | nil => simp [joinAll, asked]
  | cons e l ih =>
    have := ih (s.join e.1 e.2)
    simp only [joinAll, List.foldl_cons] at this ⊢
    rw [this, get_join, asked]
    split
    · rename_i h
      rw [h, Transform.max_assoc]
    · rfl

/-- A list that was joined in adds nothing the second time. -/
theorem joinAll_joinAll (s : Slots κ) (l : List (κ × Transform)) :
    (s.joinAll l).joinAll l = s.joinAll l :=
  ext_get fun k => by rw [get_joinAll, get_joinAll, Transform.max_assoc, Transform.max_self]

/-- A list in which a key comes once asks for that entry. -/
theorem asked_toList (s : Slots κ) (k : κ) : asked k s.toList = s.get k := by
  have key (l : List (κ × Transform)) :
      l.Pairwise (fun a b => compare a.1 b.1 = .lt) →
        asked k l = (SortedMap.lookup k l).getD .neutral := by
    intro hl
    induction l with
    | nil => rfl
    | cons e l ih =>
      obtain ⟨he, hl⟩ := List.pairwise_cons.1 hl
      simp only [asked, SortedMap.lookup]
      split
      · rename_i hk
        -- Later entries have greater keys.
        have hnone : SortedMap.lookup k l = none := by
          refine Option.eq_none_iff_forall_ne_some.2 fun t ht => ?_
          simpa [← hk] using he _ ((SortedMap.lookup_eq_some_iff hl).1 ht)
        rw [ih hl, hnone]
        simp
      · exact ih hl
  exact key _ s.stored.increasing

/-- Tables are joined slot by slot. -/
theorem get_union (s t : Slots κ) (k : κ) : (s.union t).get k = max (s.get k) (t.get k) := by
  rw [union, get_joinAll, asked_toList]

end Slots

end Openness
