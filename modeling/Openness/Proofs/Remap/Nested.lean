import Mathlib.Data.List.TakeWhile
import Mathlib.Logic.Basic
import Openness.Proofs.Remap.LastEntry

/-!
# New names of nested classes

A class is named like one nested in another class if its name goes on behind the name of
that class with a dollar sign (`Encloses`). So a name may have many classes around it, from
the class itself outwards. Some of them have entries that rename them, and the innermost one
that does (`Innermost`) is what a table goes by: the class takes the new name of that one,
and the rest of its name stays (`RenameTable.newClass_follows_entries`).

The table looks for the innermost class from the inside, and each step outwards cuts the
name at its last dollar sign (`RenameTable.splitNested_eq_some`). The classes around a name
are the class itself and those around what stands before that dollar sign
(`encloses_append_iff`), so no class in between is passed over. It does not matter what the
parts of a name are: they may be empty, also at either end of the name.
-/

namespace Openness

/-! ## The classes around a name -/

/-- `n` is `outer`, or is named like a class nested in it: `rest`, which follows, is empty
    or begins with a dollar sign. -/
structure Encloses (outer rest n : List Char) : Prop where
  append : n = outer ++ rest
  nested : rest = [] ∨ ∃ inner, rest = '$' :: inner

theorem Encloses.refl (n : List Char) : Encloses n [] n := ⟨(List.append_nil n).symm, .inl rfl⟩

theorem Encloses.length_le {outer rest n : List Char} (h : Encloses outer rest n) :
    outer.length ≤ n.length := by
  rw [h.append, List.length_append]
  exact Nat.le_add_right ..

/-- A name without a dollar sign has no class around it but the class itself. -/
theorem encloses_iff_of_not_mem {outer rest n : List Char} (hn : '$' ∉ n) :
    Encloses outer rest n ↔ outer = n ∧ rest = [] := by
  constructor
  · rintro ⟨rfl, rfl | ⟨inner, rfl⟩⟩
    · exact ⟨(List.append_nil outer).symm, rfl⟩
    · exact absurd (List.mem_append_right _ List.mem_cons_self) hn
  · rintro ⟨rfl, rfl⟩
    exact .refl outer

/-- The classes around a name are the class itself and those around what stands before the
    last dollar sign. -/
theorem encloses_append_iff {outer rest front inner : List Char} (hinner : '$' ∉ inner) :
    Encloses outer rest (front ++ '$' :: inner) ↔
      (outer = front ++ '$' :: inner ∧ rest = []) ∨
        ∃ rest', Encloses outer rest' front ∧ rest = rest' ++ '$' :: inner := by
  constructor
  · rintro ⟨happend, rfl | ⟨inner', rfl⟩⟩
    · exact .inl ⟨by rw [happend, List.append_nil], rfl⟩
    · right
      rcases List.append_eq_append_iff.1 happend with ⟨mid, rfl, hrest⟩ | ⟨mid, rfl, hrest⟩
      · -- The dollar sign behind `outer` would be one in `inner`, if not the last one.
        cases mid with
        | nil => exact ⟨[], by rw [List.append_nil]; exact .refl front, hrest.symm⟩
        | cons c mid =>
          obtain ⟨-, rfl⟩ := List.cons.inj hrest
          exact absurd (List.mem_append_right _ List.mem_cons_self) hinner
      · refine ⟨mid, ⟨rfl, ?_⟩, hrest⟩
        cases mid with
        | nil => exact .inl rfl
        | cons c mid =>
          obtain ⟨rfl, -⟩ := List.cons.inj hrest
          exact .inr ⟨mid, rfl⟩
  · rintro (⟨rfl, rfl⟩ | ⟨rest', ⟨rfl, hrest'⟩, rfl⟩)
    · exact .refl _
    · refine ⟨List.append_assoc .., .inr ?_⟩
      rcases hrest' with rfl | ⟨inner', rfl⟩
      · exact ⟨inner, rfl⟩
      · exact ⟨inner' ++ '$' :: inner, rfl⟩

/-- Among the classes around `n` that have new names, `outer` is the innermost one. Its new
    name is `renamed`, and `rest` follows it in `n`. -/
structure Innermost (names : String → Option String) (n outer rest renamed : String) : Prop where
  encloses : Encloses outer.toList rest.toList n.toList
  named : names outer = some renamed
  /-- No other class with a new name has a longer name. -/
  longest : ∀ outer' rest' : String, Encloses outer'.toList rest'.toList n.toList →
    (names outer').isSome = true → outer'.length ≤ outer.length

namespace Innermost

variable {names : String → Option String} {n outer rest renamed : String}

/-- A class with a new name of its own is the innermost one around itself. -/
theorem self (h : names n = some renamed) : Innermost names n n "" renamed where
  encloses := .refl n.toList
  named := h
  longest outer' rest' henc _ := by
    rw [← String.length_toList, ← String.length_toList]
    exact henc.length_le

/-- The innermost class with a new name is the one around the name up to its last dollar
    sign, if the class has no new name of its own. -/
theorem append {front : String} {inner : List Char} (h : Innermost names front outer rest renamed)
    (hinner : '$' ∉ inner) (hnone : names (front ++ String.ofList ('$' :: inner)) = none) :
    Innermost names (front ++ String.ofList ('$' :: inner)) outer
      (rest ++ String.ofList ('$' :: inner)) renamed where
  encloses := by
    rw [String.toList_append, String.toList_append, String.toList_ofList]
    exact (encloses_append_iff hinner).2 (.inr ⟨_, h.encloses, rfl⟩)
  named := h.named
  longest outer' rest' henc hsome := by
    rw [String.toList_append, String.toList_ofList] at henc
    rcases (encloses_append_iff hinner).1 henc with ⟨hself, -⟩ | ⟨mid, henc, -⟩
    · have : outer' = front ++ String.ofList ('$' :: inner) := by
        rw [← String.toList_inj, hself, String.toList_append, String.toList_ofList]
      rw [this, hnone] at hsome
      cases hsome
    · exact h.longest outer' (String.ofList mid) (by rwa [String.toList_ofList]) hsome

/-- There is one innermost class with a new name. -/
theorem unique {outer' rest' renamed' : String} (h : Innermost names n outer rest renamed)
    (h' : Innermost names n outer' rest' renamed') :
    outer = outer' ∧ rest = rest' ∧ renamed = renamed' := by
  have hlength : outer.toList.length = outer'.toList.length := by
    rw [String.length_toList, String.length_toList]
    exact Nat.le_antisymm
      (h'.longest outer rest h.encloses (Option.isSome_iff_exists.2 ⟨_, h.named⟩))
      (h.longest outer' rest' h'.encloses (Option.isSome_iff_exists.2 ⟨_, h'.named⟩))
  obtain ⟨houter, hrest⟩ :=
    List.append_inj (h.encloses.append.symm.trans h'.encloses.append) hlength
  rw [String.toList_inj] at houter hrest
  subst houter hrest
  exact ⟨rfl, rfl, Option.some.inj (h.named.symm.trans h'.named)⟩

end Innermost

/-! ## New names -/

namespace RenameTable

variable {t : RenameTable}

theorem splitNested_eq_none {n : List Char} (h : splitNested n = none) : '$' ∉ n := by
  rw [splitNested] at h
  split at h
  · rename_i hnil
    intro hdollar
    simpa using List.dropWhile_eq_nil_iff.1 hnil '$' (List.mem_reverse.2 hdollar)
  · cases h

/-- A name with a dollar sign is cut at the last one. -/
theorem splitNested_eq_some {n outer rest : List Char} (h : splitNested n = some (outer, rest)) :
    ∃ inner, '$' ∉ inner ∧ rest = '$' :: inner ∧ n = outer ++ '$' :: inner := by
  have hsplit := List.takeWhile_append_dropWhile (p := (· != '$')) (l := n.reverse)
  rw [splitNested] at h
  split at h
  · cases h
  · rename_i d l hd
    cases h
    have hdollar : d = '$' := by
      have := List.head?_dropWhile_not (· != '$') n.reverse
      rw [hd] at this
      simpa using this
    rw [hd, hdollar] at hsplit
    refine ⟨_, fun hmem => ?_, rfl, ?_⟩
    · simpa using List.mem_takeWhile_imp (List.mem_reverse.1 hmem)
    · simpa using (congrArg List.reverse hsplit).symm

/-- The new names of a table that classes have by their own entries. -/
def ownNames (t : RenameTable) (n : String) : Option String := (t.find n).renamed

/-- A new name of a class is that of the innermost class around it that has an entry. -/
theorem newClassChars_eq_some {n cs : List Char} (h : t.newClassChars n = some cs) :
    ∃ outer rest renamed, Innermost t.ownNames (String.ofList n) outer rest renamed ∧
      cs = (renamed ++ rest).toList := by
  -- Each step outwards goes to the name up to its last dollar sign.
  fun_induction newClassChars t n generalizing cs with
  | case1 n renamed hrenamed =>
    cases h
    exact ⟨_, "", renamed, .self hrenamed, by rw [String.append_empty]⟩
  | case2 => cases h
  | case3 n hnone front back hsplit ih =>
    obtain ⟨cs', hcs', rfl⟩ := Option.map_eq_some_iff.1 h
    obtain ⟨outer, rest, renamed, hinnermost, rfl⟩ := ih hcs'
    obtain ⟨inner, hinner, rfl, rfl⟩ := splitNested_eq_some hsplit
    rw [String.ofList_append] at hnone ⊢
    refine ⟨outer, _, renamed, hinnermost.append hinner hnone, ?_⟩
    simp only [String.toList_append, String.toList_ofList, List.append_assoc]

/-- A class has no new name only if no class around it has an entry. -/
theorem newClassChars_eq_none {n outer rest : List Char} (h : t.newClassChars n = none)
    (henc : Encloses outer rest n) : t.ownNames (String.ofList outer) = none := by
  fun_induction newClassChars t n generalizing rest with
  | case1 => cases h
  | case2 n hnone hsplit =>
    obtain ⟨rfl, -⟩ := (encloses_iff_of_not_mem (splitNested_eq_none hsplit)).1 henc
    exact hnone
  | case3 n hnone front back hsplit ih =>
    obtain ⟨inner, hinner, rfl, rfl⟩ := splitNested_eq_some hsplit
    rcases (encloses_append_iff hinner).1 henc with ⟨rfl, -⟩ | ⟨mid, henc, -⟩
    · exact hnone
    · exact ih (Option.map_eq_none_iff.1 h) henc

theorem newClass_eq_none_iff {n : String} :
    t.newClass n = none ↔
      ∀ outer rest : String, Encloses outer.toList rest.toList n.toList → t.ownNames outer = none := by
  rw [newClass, Option.map_eq_none_iff]
  constructor
  · intro h outer rest henc
    have := newClassChars_eq_none h henc
    rwa [String.ofList_toList] at this
  · intro h
    cases hcs : t.newClassChars n.toList with
    | none => rfl
    | some cs =>
      obtain ⟨outer, rest, renamed, hinnermost, -⟩ := newClassChars_eq_some hcs
      have hnone := h outer rest (by simpa using hinnermost.encloses)
      rw [hinnermost.named] at hnone
      cases hnone

/-- The new name of a class is that of the innermost class around it that has an entry, and
    the rest of the old name. -/
theorem newClass_eq_some_iff {n n' : String} :
    t.newClass n = some n' ↔
      ∃ outer rest renamed, Innermost t.ownNames n outer rest renamed ∧ n' = renamed ++ rest := by
  have of_eq_some {n' : String} (h : t.newClass n = some n') :
      ∃ outer rest renamed, Innermost t.ownNames n outer rest renamed ∧ n' = renamed ++ rest := by
    obtain ⟨cs, hcs, rfl⟩ := Option.map_eq_some_iff.1 h
    obtain ⟨outer, rest, renamed, hinnermost, rfl⟩ := newClassChars_eq_some hcs
    rw [String.ofList_toList] at hinnermost ⊢
    exact ⟨outer, rest, renamed, hinnermost, rfl⟩
  refine ⟨of_eq_some, ?_⟩
  rintro ⟨outer, rest, renamed, hinnermost, rfl⟩
  cases h : t.newClass n with
  | none =>
    have hnone := newClass_eq_none_iff.1 h outer rest hinnermost.encloses
    rw [hinnermost.named] at hnone
    cases hnone
  | some n' =>
    obtain ⟨_, _, _, hinnermost', rfl⟩ := of_eq_some h
    obtain ⟨-, rfl, rfl⟩ := hinnermost.unique hinnermost'
    rfl

/-- Tables that rename the same classes by entries give all classes the same new names. -/
theorem newClass_congr {u : RenameTable} (h : t.ownNames = u.ownNames) :
    t.newClass = u.newClass := by
  funext n
  refine Option.ext fun n' => ?_
  rw [newClass_eq_some_iff, newClass_eq_some_iff, h]

end RenameTable

/-! ## Entries -/

/-- Whether an entry is about a class, and not about a member of one. -/
def Rename.isOfClass : Rename → Bool
  | .ofClass .. => true
  | _ => false

/-- `newClass` goes by the entries for the innermost classes, of which the last ones
    count. -/
structure FollowsEntries (entries : List Rename) (newClass : String → Option String) :
    Prop where
  /-- There is no new name exactly if no class around the name has an entry. -/
  none_iff : ∀ n, newClass n = none ↔
    ∀ outer rest : String, Encloses outer.toList rest.toList n.toList →
      Rename.lastFor entries (.ofClass outer) = none
  /-- Otherwise that of the innermost class around it counts, and the rest stays. -/
  some_iff : ∀ n n', newClass n = some n' ↔ ∃ outer rest renamed,
    Innermost (fun c => Rename.lastFor entries (.ofClass c)) n outer rest renamed ∧
      n' = renamed ++ rest
  /-- Entries for members play no part. -/
  members : newClass = (RenameTable.addAll ∅ (entries.filter Rename.isOfClass)).newClass

namespace RenameTable

/-- The classes that a table renames by entries are those with a last entry. -/
theorem ownNames_addAll (entries : List Rename) :
    (addAll ∅ entries).ownNames = fun c => Rename.lastFor entries (.ofClass c) :=
  funext fun c => renamed?_addAll_empty entries (.ofClass c)

/-- Entries for members are no entries for classes. -/
theorem lastFor_filter_isOfClass (entries : List Rename) (c : String) :
    Rename.lastFor (entries.filter Rename.isOfClass) (.ofClass c) =
      Rename.lastFor entries (.ofClass c) := by
  rw [Rename.lastFor, Rename.lastFor, ← List.filter_reverse, List.find?_filter]
  congr 2
  funext e
  cases e <;> simp [Rename.isOfClass, Rename.subject]

/-- A table renames nested classes by the innermost class that has an entry, whatever was
    added to it. -/
theorem newClass_follows_entries (entries : List Rename) :
    FollowsEntries entries (addAll ∅ entries).newClass where
  none_iff n := by rw [newClass_eq_none_iff, ownNames_addAll]
  some_iff n n' := by rw [newClass_eq_some_iff, ownNames_addAll]
  members := newClass_congr (by
    rw [ownNames_addAll, ownNames_addAll]
    exact funext fun c => (lastFor_filter_isOfClass entries c).symm)

/-- An entry for a field stands in the way neither of the class nor of those around it, and
    the parts of a name may be empty. -/
example :
    let t := addAll ∅ [.ofClass "a" "p/A", .ofField "a$b" "x" "y", .ofClass "a$" "q/B"]
    t.newClass "a$b$c" = some "p/A$b$c" ∧ t.newClass "a$$" = some "q/B$" ∧
      t.newClass "$a" = none := by
  decide +kernel

end RenameTable

end Openness
