import Openness.Proofs.Format.RoundTrip

/-!
# Writing what was read

Whatever is read can be written again. A name that was read may be odd, but it was a word
of some line, and the reader takes only words that mean the same wherever the writer puts
them. So a set that was read is *fresh* (`Fresh`): nothing in it stands in the way of
writing it, and there is nothing that its text leaves out. It is read back as it was, and
its text stays the same from then on.

* `Fresh.of_follow`, `Fresh.of_read`: what is read is fresh;
* `Fresh.parse_write`: a fresh set is read back from its text;
* `read_survives`: both, for whatever is read.
-/

namespace Openness.Format

open TransformSet (follow)

/-- A set as it comes from a text: each class is asked something, has inherited nothing
    and can be written. -/
structure Fresh (s : TransformSet) : Prop where
  nonempty : ∀ c ∈ s.classes.toList, c.transforms.isEmpty = false
  incomplete : ∀ c ∈ s.classes.toList, c.complete = false
  writable : ∀ c ∈ s.classes.toList, c.Writable

/-- What writable directives say is fresh. -/
theorem Fresh.of_follow {ds : List Directive} (hds : ∀ d ∈ ds, d.Writable) :
    Fresh (follow ∅ ds) := by
  have hempty : ∀ c ∈ (follow ∅ ds).classes.toList, c.transforms.isEmpty = false :=
    fun _ hc => TransformSet.isEmpty_of_mem_follow (fun d hd => (hds d hd).transform) hc
  refine ⟨hempty, fun c hc => ?_, fun c hc => ?_⟩
  · have hmark : (follow ∅ ds).isComplete c.name = false := TransformSet.isComplete_follow ..
    rwa [TransformSet.isComplete_of_find? (TransformSet.mem_classes.1 hc)] at hmark
  · exact directives_writable_iff.1 (writable_of_follow hds fun _ _ => rfl) c hc (hempty c hc)

/-- What is read is fresh. -/
theorem Fresh.of_read {settings : Settings} {bytes : List UInt8} {s : TransformSet}
    (h : (read settings bytes).result = .ok s) : Fresh s := by
  obtain ⟨ds, hds, rfl⟩ := exists_directives_of_readLines h
  exact .of_follow hds

/-- Equal sets are written alike. -/
theorem write_congr {s t : TransformSet} (h : (s == t) = true) (settings : Settings) :
    write settings s = write settings t := by
  rw [write, writtenChars, TransformSet.directives_congr h, ← writtenChars, ← write]

/-- A fresh set is read back from its text, however it is written. -/
theorem Fresh.parse_write {s : TransformSet} (hs : Fresh s) :
    ∃ t, (∀ reading writing, parse reading (write writing s) = ⟨.ok t, []⟩) ∧ (t == s) = true := by
  have hds : ∀ d ∈ s.directives, d.Writable :=
    directives_writable_iff.2 fun c hc _ => hs.writable c hc
  refine ⟨follow ∅ s.directives, Format.parse_write hds, ?_⟩
  have := s.follow_directives
  rwa [TransformSet.trim_eq_self hs.nonempty] at this

/-- Whatever is read survives: it is fresh, it is read back from its text without a
    complaint, however it is written, and what is read then has the same text. -/
theorem read_survives {settings : Settings} {bytes : List UInt8} {s : TransformSet}
    (h : (read settings bytes).result = .ok s) :
    Fresh s ∧ ∃ t, (∀ reading writing, parse reading (write writing s) = ⟨.ok t, []⟩) ∧
      (t == s) = true ∧ ∀ writing, write writing t = write writing s := by
  have hs := Fresh.of_read h
  obtain ⟨t, hparse, heq⟩ := hs.parse_write
  exact ⟨hs, t, hparse, heq, write_congr heq⟩

/-- A text with odd names: a class is written in two ways, the name of a method ends like
    its parameters do, and its descriptor has a class with a parenthesis. -/
def oddText : String :=
  "public a.B\r\nprivate -f a/B *\nprotected a.B run)(La(b;)V # note"

/-- What `oddText` says. -/
def oddSet : TransformSet :=
  (((∅ : TransformSet).join "a/B" .own ⟨.toPublic, .keep⟩).join "a/B" .allFields
    ⟨.toPrivate, .remove⟩).join "a/B" (.method ⟨"run)", "(La(b;)V"⟩) ⟨.toProtected, .keep⟩

/-- The odd names are read, and survive. -/
theorem odd_names_survive :
    (read {} (Text.encode oddText)).result = .ok oddSet ∧ Fresh oddSet ∧
      ∃ t, (∀ reading writing, parse reading (write writing oddSet) = ⟨.ok t, []⟩) ∧
        (t == oddSet) = true ∧ ∀ writing, write writing t = write writing oddSet := by
  have hread : (read {} (Text.encode oddText)).result = .ok oddSet :=
    Reading.result_eq_ok (by decide +kernel)
  exact ⟨hread, read_survives hread⟩

end Openness.Format
