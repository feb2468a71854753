import Openness.Proofs.Format.AllOrNothing
import Openness.Proofs.Format.TerminatedLines

/-!
# Reading in parts

A source that is cut behind a line may be read in two parts (`read_in_parts`). Cut there, it
has the lines of both parts (`Text.lines_append`), so what comes of it is put together of
what comes of the parts: the sets are merged, and what is reported about the second part is
reported under later numbers, as many lines later as the first part has newlines. A part that
cannot be read is why the whole cannot be read, and it is the first such part that counts.

The second part is read by itself, from its first line on and into a set without classes. In
the whole it comes behind other lines and goes into what they have made up. That this makes
no other difference is shown along its lines (`readLines_behind`). What they say in a set
that is made up already is what they say by themselves, merged into it
(`TransformSet.merge_follow`).
-/

namespace Openness

namespace Text

/-! ## Lines of two parts -/

/-- A source that ends behind a line: it is empty, or its last byte is a newline. -/
def EndsLine (bytes : List UInt8) : Prop := bytes = [] ∨ bytes.getLast? = some newline

/-- What follows a newline ends behind a line if all does. -/
theorem EndsLine.of_append_newline {l rest : List UInt8} (h : EndsLine (l ++ newline :: rest)) :
    EndsLine rest := by
  cases rest with
  | nil => exact .inl rfl
  | cons b rest =>
    have hlast := h.resolve_left (List.append_ne_nil_of_right_ne_nil _ (List.cons_ne_nil _ _))
    rw [List.getLast?_append_of_ne_nil _ (List.cons_ne_nil _ _), List.getLast?_cons_cons] at hlast
    exact .inr hlast

/-- A source without a newline ends behind a line only if it is empty. -/
theorem EndsLine.eq_nil {l : List UInt8} (h : EndsLine l) (hl : newline ∉ l) : l = [] :=
  h.resolve_right fun hlast => hl (List.mem_of_getLast? hlast)

/-- The lines of a source that is cut behind a line are those of both parts. -/
theorem lines_append {a : List UInt8} (ha : EndsLine a) (b : List UInt8) :
    lines (a ++ b) = lines a ++ lines b := by
  induction a using lines_induction with
  | last l hl => rw [ha.eq_nil hl, List.nil_append, lines_nil, List.nil_append]
  | cons l rest hl ih =>
    rw [List.append_assoc, List.cons_append, lines_append_newline hl, lines_append_newline hl,
      ih ha.of_append_newline, List.cons_append]

/-- A source that ends behind a line has as many lines as newlines. -/
theorem length_lines {a : List UInt8} (ha : EndsLine a) : (lines a).length = a.count newline := by
  induction a using lines_induction with
  | last l hl =>
    rw [ha.eq_nil hl, lines_nil]
    rfl
  | cons l rest hl ih =>
    rw [lines_append_newline hl, List.length_cons, ih ha.of_append_newline, List.count_append,
      List.count_eq_zero_of_not_mem hl, List.count_cons_self, Nat.zero_add]

end Text

namespace Format

variable {policy : MalformedLines} {settings : Settings} {a b : List UInt8}

/-! ## Lines behind others -/

/-- A diagnostic of a line that comes behind `k` others. -/
def Diagnostic.behind (k : Nat) (d : Diagnostic) : Diagnostic := { d with line := d.line + k }

/-- Why lines that come behind `k` others cannot be read. -/
def FormatError.behind (k : Nat) : FormatError → FormatError
  | .malformed line cause => .malformed (line + k) cause
  | e => e

/-- What comes of lines behind `k` others that have made up a set, by what comes of these
    lines by themselves. -/
def Reading.behind (k : Nat) (s : TransformSet) (r : Reading) : Reading where
  result :=
    match r.result with
    | .ok t => .ok (s.merge t)
    | .error e => .error (e.behind k)
  skipped := r.skipped.map (Diagnostic.behind k)

/-- What is wrong with a line behind others is what is wrong with it, under its later
    number. -/
theorem diagnostic?_add (n k : Nat) (l : List UInt8) :
    diagnostic? (n + k) l = (diagnostic? n l).map (Diagnostic.behind k) := by
  rw [diagnostic?, diagnostic?]
  cases Text.decode? l with
  | none => rfl
  | some text =>
    simp only [Option.bind_some]
    cases Directive.parse text <;> rfl

/-- Lines behind others, read into what was made up before by those and by directives, come
    to what they come to by themselves and by the directives. -/
theorem readLines_behind (n k : Nat) (ls : List (List UInt8)) (s : TransformSet)
    (ds : List Directive) :
    readLines policy (n + k) ls (s.follow ds) =
      (readLines policy n ls (TransformSet.follow ∅ ds)).behind k s := by
  induction ls generalizing n ds with
  | nil =>
    show Reading.mk (.ok (s.follow ds)) [] = Reading.mk (.ok (s.merge _)) []
    rw [s.merge_follow ds]
  | cons l ls ih =>
    have hn : n + k + 1 = n + 1 + k := Nat.add_right_comm n k 1
    by_cases htext : Text.decode? l = none
    · rw [readLines_cons_of_not_text htext, readLines_cons_of_not_text htext]
      rfl
    have hbehind := diagnostic?_add n k l
    cases hd : diagnostic? n l with
    | none =>
      -- What the line says is one more directive.
      rw [hd] at hbehind
      rw [readLines_cons_of_well_formed htext hbehind, readLines_cons_of_well_formed htext hd,
        ← TransformSet.follow_append, ← TransformSet.follow_append, hn, ih]
    | some d =>
      rw [hd] at hbehind
      cases policy with
      | error =>
        rw [readLines_error_cons_of_malformed hbehind, readLines_error_cons_of_malformed hd]
        rfl
      | skip =>
        rw [readLines_skip_cons_of_malformed hbehind, readLines_skip_cons_of_malformed hd, hn, ih]
        rfl

/-! ## Two parts -/

/-- Behind a part that can be read, the other part is read into its set. -/
theorem read_append_of_ok {s : TransformSet} (ha : Text.EndsLine a)
    (hs : (read settings a).result = .ok s) :
    read settings (a ++ b) =
      let rest := (read settings b).behind (a.count Text.newline) s
      { rest with skipped := (read settings a).skipped ++ rest.skipped } := by
  have hrest : readLines settings.malformedLines (1 + (Text.lines a).length) (Text.lines b) s =
      (read settings b).behind (a.count Text.newline) s := by
    rw [Text.length_lines ha]
    exact readLines_behind 1 _ _ s []
  simp only [read] at hs hrest ⊢
  rw [Text.lines_append ha, readLines_append]
  simp only [hs, hrest]

/-- Behind a part that cannot be read, nothing is read any more. -/
theorem read_append_of_error {e : FormatError} (ha : Text.EndsLine a)
    (he : (read settings a).result = .error e) : read settings (a ++ b) = read settings a := by
  simp only [read] at he ⊢
  rw [Text.lines_append ha, readLines_append]
  simp only [he]

/-- What comes of a source of two parts, by what comes of each of them. -/
structure ReadInParts (settings : Settings) (a b : List UInt8) : Prop where
  /-- If both can be read, their sets are merged. The lines skipped are those of the first
      part and then those of the second one, under later numbers. -/
  both : ∀ s t, (read settings a).result = .ok s → (read settings b).result = .ok t →
    (read settings (a ++ b)).result = .ok (s.merge t) ∧
      (read settings (a ++ b)).skipped = (read settings a).skipped ++
        (read settings b).skipped.map (Diagnostic.behind (a.count Text.newline))
  /-- If the first one cannot be read, that is all that comes of it. -/
  first_fails : ∀ e, (read settings a).result = .error e →
    read settings (a ++ b) = read settings a
  /-- If the second one cannot be read, this is why, under a later number if it is for a
      malformed line. -/
  second_fails : ∀ s e, (read settings a).result = .ok s → (read settings b).result = .error e →
    (read settings (a ++ b)).result = .error (e.behind (a.count Text.newline))

/-- A source that is cut behind a line can be read in two parts. -/
theorem read_in_parts (ha : Text.EndsLine a) : ReadInParts settings a b where
  both s t hs ht := by
    rw [read_append_of_ok ha hs, Reading.behind, ht]
    exact ⟨rfl, rfl⟩
  first_fails e he := read_append_of_error ha he
  second_fails s e hs he := by rw [read_append_of_ok ha hs, Reading.behind, he]

/-- A line that asks something of a field, with a carriage return. -/
def firstPart : List UInt8 := Text.encode "public a/B x\r\n"

/-- A line that asks something else of the field, a blank one and one that is malformed. -/
def secondPart : List UInt8 := Text.encode "+f a/B x\n\npublic"

/-- Something is asked of the field only. -/
def fieldAsked (t : Transform) : TransformSet := (∅ : TransformSet).join "a/B" (.field "x") t

/-- What is asked in both parts is joined. The malformed line is the fourth of the whole, be
    it skipped or not. -/
theorem field_read_in_parts :
    Text.EndsLine firstPart ∧
      (read ⟨.skip, .internal⟩ (firstPart ++ secondPart)).result =
        .ok ((fieldAsked ⟨.toPublic, .keep⟩).merge (fieldAsked ⟨.keep, .add⟩)) ∧
      (read ⟨.skip, .internal⟩ (firstPart ++ secondPart)).skipped = [⟨4, .noClass, "public"⟩] ∧
      (read ⟨.error, .internal⟩ (firstPart ++ secondPart)).result = .error (.malformed 4 .noClass) := by
  have hends : Text.EndsLine firstPart := .inr (by decide +kernel)
  have hfirst (policy : MalformedLines) :
      (read ⟨policy, .internal⟩ firstPart).result = .ok (fieldAsked ⟨.toPublic, .keep⟩) := by
    cases policy <;> exact Reading.result_eq_ok (by decide +kernel)
  have hsecond : (read ⟨.skip, .internal⟩ secondPart).result = .ok (fieldAsked ⟨.keep, .add⟩) :=
    Reading.result_eq_ok (by decide +kernel)
  have hdiagnostics : diagnostics 1 (Text.lines secondPart) = [⟨3, .noClass, "public"⟩] := by
    decide +kernel
  have hfails : (read ⟨.error, .internal⟩ secondPart).result = .error (.malformed 3 .noClass) :=
    readLines_eq_malformed (by decide +kernel) hdiagnostics
  obtain ⟨hresult, hskipped⟩ := (read_in_parts hends).both _ _ (hfirst .skip) hsecond
  refine ⟨hends, hresult, hskipped.trans (by decide +kernel), ?_⟩
  exact (read_in_parts hends).second_fails _ _ (hfirst .error) hfails

end Format

end Openness
