import Openness.Proofs.Format.DirectiveRoundTrip
import Openness.Proofs.Format.LineByLine
import Openness.Proofs.Format.TerminatedLines

/-!
# Reading back a written set

A written set is read back exactly if each of its classes can be written, those
aside that nothing is asked of. Both directions go through the directives that a
set says: they are read back from their lines if they can be written, and
whatever is read from a text is what directives say that can be written.

* `readLines_chars`, `parse_terminated`: reading the lines of writable directives is
  doing what they say;
* `exists_directives_of_readLines`: reading any lines is doing what some writable
  directives say;
* `parse_write_iff`: a set is read back from its text exactly if its classes can
  be written.
-/

namespace Openness.Format

open TransformSet (follow)

/-! ## Lines of directives -/

/-- The line of a directive is one line. -/
theorem Directive.Writable.chars_unbroken {d : Directive} (h : d.Writable) (names : ClassNames) :
    '\n' ∉ d.chars names ∧ '\r' ∉ d.chars names := by
  have hbreak {c : Char} (hc : Text.isBlank c = true) (hspace : c ≠ ' ') : c ∉ d.chars names := by
    rw [chars_eq]
    intro hmem
    rcases Text.eq_space_or_mem_of_mem_intercalate hmem with hmem | ⟨cs, hcs, hmem⟩
    · exact hspace hmem
    · obtain ⟨w, hw, rfl⟩ := List.mem_map.1 hcs
      have := (h.isWord_of_mem_words w hw).no_blank c hmem
      rw [hc] at this
      cases this
  exact ⟨hbreak (by decide) (by decide), hbreak (by decide) (by decide)⟩

/-- Reading the lines of writable directives is doing what they say. -/
theorem readLines_chars {ds : List Directive} (h : ∀ d ∈ ds, d.Writable) (names : ClassNames)
    (policy : MalformedLines) (n : Nat) (s : TransformSet) :
    readLines policy n (ds.map fun d => Text.encode (String.ofList (d.chars names))) s =
      ⟨.ok (s.follow ds), []⟩ := by
  induction ds generalizing n s with
  | nil => rfl
  | cons d ds ih =>
    obtain ⟨hd, h⟩ := List.forall_mem_cons.1 h
    rw [List.map_cons, readLines, Text.decode?_encode]
    simp only [Directive.parse_chars hd]
    exact ih h (n + 1) (d.apply s)

/-- Reading any lines is doing what some writable directives say. -/
theorem exists_directives_of_readLines {policy : MalformedLines} {n : Nat} {ls : List (List UInt8)}
    {s t : TransformSet} (h : (readLines policy n ls s).result = .ok t) :
    ∃ ds : List Directive, (∀ d ∈ ds, d.Writable) ∧ t = s.follow ds := by
  obtain ⟨-, rfl⟩ := readLines_eq_ok_iff.1 h
  refine ⟨ls.filterMap directive?, fun d hd => ?_, rfl⟩
  obtain ⟨l, -, hl⟩ := List.mem_filterMap.1 hd
  obtain ⟨text, -, hparse⟩ := directive?_eq_some_iff.1 hl
  exact Directive.writable_of_parse hparse

/-! ## Sets -/

/-- What a set says can be written exactly if its classes can, those aside that
    nothing is asked of. -/
theorem directives_writable_iff {s : TransformSet} :
    (∀ d ∈ s.directives, d.Writable) ↔
      ∀ c ∈ s.classes.toList, c.transforms.isEmpty = false → c.Writable := by
  constructor
  · intro h c hc hne
    -- Something is asked of the class, so that its name is in a directive.
    have hc := TransformSet.mem_classes.1 hc
    have hsay (slot : Slot) (hslot : c.transforms.get slot ≠ .neutral) :
        Directive.Writable ⟨c.transforms.get slot, c.name, slot⟩ :=
      h _ (TransformSet.mem_directives.2 ⟨TransformSet.get_of_find? hc slot, hslot⟩)
    rw [← Bool.not_eq_true, ClassTransforms.isEmpty_iff, not_forall] at hne
    obtain ⟨slot, hslot⟩ := hne
    exact ClassEntry.writable_iff.2
      ⟨(hsay slot hslot).className, fun slot hslot => (hsay slot hslot).slot⟩
  · intro h d hd
    obtain ⟨hget, ht⟩ := TransformSet.mem_directives.1 hd
    obtain ⟨c, hc⟩ := Option.isSome_iff_exists.1 (TransformSet.contains_of_get_ne (hget.trans_ne ht))
    have hname : c.name = d.className := TransformSet.name_of_find? hc
    have hslot : c.transforms.get d.slot ≠ .neutral := by
      rw [← TransformSet.get_of_find? hc, hget]
      exact ht
    have hne : c.transforms.isEmpty = false := by
      rw [← Bool.not_eq_true, ClassTransforms.isEmpty_iff, not_forall]
      exact ⟨d.slot, hslot⟩
    have hwritable := ClassEntry.writable_iff.1
      (h c (TransformSet.mem_classes.2 (hname.symm ▸ hc)) hne)
    exact ⟨ht, hname ▸ hwritable.1, hwritable.2 d.slot hslot⟩

/-- A set that asks the same as writable directives says nothing else than such. -/
theorem writable_of_follow {ds : List Directive} (hds : ∀ d ∈ ds, d.Writable) {s : TransformSet}
    (h : ∀ n slot, (follow ∅ ds).get n slot = s.get n slot) : ∀ d ∈ s.directives, d.Writable := by
  intro d hd
  obtain ⟨hget, ht⟩ := TransformSet.mem_directives.1 hd
  obtain ⟨e, he, hname, hslot⟩ := TransformSet.exists_mem_of_get_follow_ne
    (((h d.className d.slot).trans hget).trans_ne ht)
  exact ⟨ht, hname ▸ (hds e he).className, hslot ▸ (hds e he).slot⟩

/-- A written set is what it says, line by line. -/
theorem write_eq (settings : Settings) (s : TransformSet) :
    write settings s =
      Text.terminated (s.directives.map (Directive.chars settings.classNames)) := by
  rw [Text.terminated, List.flatMap_map]
  rfl

/-- Reading a text with a line for each of some writable directives is doing what they say. -/
theorem parse_terminated {ds : List Directive} (h : ∀ d ∈ ds, d.Writable) (reading : Settings)
    (names : ClassNames) :
    parse reading (Text.terminated (ds.map (Directive.chars names))) = ⟨.ok (follow ∅ ds), []⟩ := by
  have hunbroken : ∀ l ∈ ds.map (Directive.chars names), '\n' ∉ l ∧ '\r' ∉ l := by
    intro l hl
    obtain ⟨d, hd, rfl⟩ := List.mem_map.1 hl
    exact (h d hd).chars_unbroken _
  rw [parse, read, Text.terminated, Text.lines_encode_terminated hunbroken, List.map_map]
  exact readLines_chars h _ _ _ _

/-- Reading a written set is doing what the set says, if that can be written. -/
theorem parse_write {s : TransformSet} (h : ∀ d ∈ s.directives, d.Writable)
    (reading writing : Settings) :
    parse reading (write writing s) = ⟨.ok (follow ∅ s.directives), []⟩ := by
  rw [write_eq]
  exact parse_terminated h reading writing.classNames

/-- A written set is read back, but for the classes that nothing is asked of,
    exactly if all other classes can be written. -/
theorem parse_write_iff (s : TransformSet) (settings : Settings) :
    (∃ t, (parse {} (write settings s)).result = .ok t ∧ (t == s.trim) = true) ↔
      ∀ c ∈ s.classes.toList, c.transforms.isEmpty = false → c.Writable := by
  rw [← directives_writable_iff]
  constructor
  · rintro ⟨t, hread, heq⟩
    -- What was read is what writable directives say, and asks what the set asks.
    obtain ⟨ds, hds, rfl⟩ := exists_directives_of_readLines hread
    have hget := (TransformSet.beq_iff_get.1 heq).2
    exact writable_of_follow hds fun n slot => (hget n slot).trans (s.get_trim n slot)
  · intro h
    exact ⟨follow ∅ s.directives, by rw [parse_write h], s.follow_directives⟩

end Openness.Format
