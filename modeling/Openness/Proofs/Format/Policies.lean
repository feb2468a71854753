import Openness.Proofs.Format.LineByLine
import Openness.Proofs.Format.TerminatedLines

/-!
# Strict and lenient reading

A source may be read in two ways: strictly, where a malformed line ends the reading, and
leniently, where such a line is skipped and reported. The two agree as far as they can
(`lenient_strict_agree`). They give the same set where nothing is malformed; the first line
that lenient reading reports is what strict reading fails for; and a line that is skipped
leaves no trace, so that lenient reading is strict reading of a source in which the
malformed lines are emptied (`Text.emptied`).

A line that is no text is beyond both.
-/

namespace Openness

namespace Text

/-! ## Emptied lines -/

/-- A source with some of its lines emptied, by number. The first line has the given number,
    and the newlines stay. -/
def emptied (p : Nat → Bool) : Nat → List UInt8 → List UInt8
  | _, [] => []
  | n, b :: bs =>
    if b = newline then b :: emptied p (n + 1) bs
    else if p n then emptied p n bs
    else b :: emptied p n bs

/-- The bytes of a line are all kept or all taken out. -/
theorem emptied_append {l : List UInt8} (h : newline ∉ l) (p : Nat → Bool) (n : Nat)
    (rest : List UInt8) :
    emptied p n (l ++ rest) = (if p n then [] else l) ++ emptied p n rest := by
  induction l with
  | nil => simp
  | cons b l ih =>
    obtain ⟨hb, hl⟩ := not_or.1 (List.mem_cons.not.1 h)
    rw [List.cons_append, emptied, if_neg (Ne.symm hb), ih hl]
    split <;> rfl

/-- What is found in the lines of a source with some of them emptied is what is found in the
    others, if nothing is found in an empty line. -/
theorem filterMap_lines_emptied {α : Type} {f : List UInt8 → Option α} (hf : f [] = none)
    (p : Nat → Bool) (n : Nat) (bytes : List UInt8) :
    (lines (emptied p n bytes)).filterMap f =
      ((lines bytes).zipIdx n).filterMap fun e => if p e.2 then none else f e.1 := by
  induction bytes using lines_induction generalizing n with
  | last l hl =>
    have hemptied := emptied_append hl p n []
    rw [List.append_nil] at hemptied
    rw [hemptied, lines_of_not_mem hl]
    by_cases hp : p n = true <;> by_cases hnil : l = [] <;>
      simp [emptied, hp, hnil, lines_of_not_mem hl, List.filterMap_cons]
  | cons l rest hl ih =>
    have hkept : newline ∉ if p n then [] else l := by
      split
      · exact List.not_mem_nil
      · exact hl
    have hnewline : emptied p n (newline :: rest) = newline :: emptied p (n + 1) rest := if_pos rfl
    rw [emptied_append hl, hnewline, lines_append_newline hkept, lines_append_newline hl,
      List.zipIdx_cons, List.filterMap_cons, List.filterMap_cons, ih]
    by_cases hp : p n = true
    · simp [hp, dropReturn, hf]
    · simp [hp]

/-- Nothing changes if no line is emptied. -/
theorem emptied_eq_self {p : Nat → Bool} (hp : ∀ n, p n = false) (n : Nat) (bytes : List UInt8) :
    emptied p n bytes = bytes := by
  induction bytes generalizing n with
  | nil => rfl
  | cons b bs ih =>
    rw [emptied, hp, ih, ih]
    split <;> rfl

/-- The newline of an emptied line stays, and a carriage return before it goes. -/
example : emptied (· == 2) 1 (encode "a\nbc\r\nd\r\n") = encode "a\n\nd\r\n" := by decide

end Text

namespace Format

/-! ## Reported lines -/

/-- Whether the line of a number is among those reported. -/
def isReported (ds : List Diagnostic) (n : Nat) : Bool := ds.any (·.line = n)

theorem isReported_iff {ds : List Diagnostic} {n : Nat} :
    isReported ds n = true ↔ ∃ d ∈ ds, d.line = n := by
  simp [isReported]

/-- A source with its malformed lines emptied. -/
def withoutMalformed (bytes : List UInt8) : List UInt8 :=
  Text.emptied (isReported (diagnostics 1 (Text.lines bytes))) 1 bytes

variable {bytes : List UInt8} {s : TransformSet}

/-- An empty line does not end the reading. -/
theorem not_endsReading_nil {policy : MalformedLines} : ¬EndsReading policy [] := by
  have hempty : Text.decode? [] = some "" := Text.decode?_encode ""
  rintro (h | ⟨-, text, e, h, hparse⟩)
  · rw [hempty] at h
    cases h
  · rw [hempty] at h
    cases h
    cases hparse

/-- No line ends the reading once the malformed ones are emptied, if all of them are text. -/
theorem not_endsReading_withoutMalformed (htext : ∀ l ∈ Text.lines bytes, Text.decode? l ≠ none) :
    ∀ l ∈ Text.lines (withoutMalformed bytes), ¬EndsReading .error l := by
  classical
  -- What is found of such lines in the new source is what is found in the lines kept.
  have hfound := Text.filterMap_lines_emptied
    (f := fun l => if EndsReading .error l then some l else none) (if_neg not_endsReading_nil)
    (isReported (diagnostics 1 (Text.lines bytes))) 1 bytes
  have hkept : ∀ e ∈ (Text.lines bytes).zipIdx 1,
      (if isReported (diagnostics 1 (Text.lines bytes)) e.2 then none
        else if EndsReading .error e.1 then some e.1 else none) = none := by
    rintro ⟨k, i⟩ hk
    split
    · rfl
    · rename_i hi
      rw [isReported_iff, exists_mem_diagnostics_iff hk] at hi
      refine if_neg fun hends => ?_
      rcases (endsReading_iff i).1 hends with h | ⟨-, h⟩
      · exact htext k (List.fst_mem_of_mem_zipIdx hk) h
      · exact hi h
  rw [List.filterMap_eq_nil_iff.2 hkept, List.filterMap_eq_nil_iff] at hfound
  intro l hl hends
  have := hfound l hl
  rw [if_pos hends] at this
  cases this

/-- The emptied lines said nothing. -/
theorem filterMap_directive?_withoutMalformed (bytes : List UInt8) :
    (Text.lines (withoutMalformed bytes)).filterMap directive? =
      (Text.lines bytes).filterMap directive? := by
  have hnumbered : (Text.lines bytes).filterMap directive? =
      ((Text.lines bytes).zipIdx 1).filterMap fun e => directive? e.1 := by
    conv_lhs => rw [← List.zipIdx_map_fst 1 (Text.lines bytes), List.filterMap_map]
    rfl
  rw [withoutMalformed, Text.filterMap_lines_emptied rfl, hnumbered]
  refine List.filterMap_congr fun e he => ?_
  split
  · rename_i hi
    obtain ⟨d, hd⟩ := (exists_mem_diagnostics_iff he).1 (isReported_iff.1 hi)
    exact (directive?_of_diagnostic? hd).symm
  · rfl

/-! ## Both readings -/

/-- What strict reading has to do with a lenient reading of the same source that gives the
    set `s`. -/
structure SkipsMalformed (lenient strict : List UInt8 → Reading) (bytes : List UInt8)
    (s : TransformSet) : Prop where
  /-- Lines are reported by increasing number. -/
  increasing : (lenient bytes).skipped.Pairwise (·.line < ·.line)
  /-- The malformed lines are reported, counted from one, and nothing else is. -/
  mem_skipped : ∀ d, d ∈ (lenient bytes).skipped ↔
    ∃ l, (l, d.line) ∈ (Text.lines bytes).zipIdx 1 ∧ Text.decode? l = some d.text ∧
      Directive.parse d.text = .error d.cause
  /-- There is a warning for each of them, in their order. -/
  events : (lenient bytes).events =
    (lenient bytes).skipped.map fun d => .skippedLine d.line d.cause.message
  warnings : ∀ e ∈ (lenient bytes).events, e.severity = .warning
  /-- If there are none, strict reading gives the same set. -/
  strict_ok : (lenient bytes).skipped = [] → strict bytes = ⟨.ok s, []⟩
  /-- Otherwise it fails for the first one. -/
  strict_error : ∀ d ds, (lenient bytes).skipped = d :: ds →
    (strict bytes).result = .error (.malformed d.line d.cause)
  /-- With these lines emptied, it gives the same set. -/
  emptied : strict (Text.emptied (isReported (lenient bytes).skipped) 1 bytes) = ⟨.ok s, []⟩

/-- How lenient and strict reading of a source agree. -/
structure PoliciesAgree (lenient strict : List UInt8 → Reading) (bytes : List UInt8) :
    Prop where
  /-- Lenient reading fails exactly if some line is no text. -/
  fails_iff : (∃ e, (lenient bytes).result = .error e) ↔
    ∃ l ∈ Text.lines bytes, Text.decode? l = none
  /-- It fails for that reason, and strict reading fails as well. -/
  fails : ∀ e, (lenient bytes).result = .error e →
    e = .io .notUtf8 ∧ ∃ e', (strict bytes).result = .error e'
  /-- Otherwise it skips the malformed lines. -/
  skips : ∀ s, (lenient bytes).result = .ok s → SkipsMalformed lenient strict bytes s

/-- With its malformed lines emptied, a source of text is read strictly, and says the same. -/
theorem read_withoutMalformed (htext : ∀ l ∈ Text.lines bytes, Text.decode? l ≠ none)
    (names : ClassNames) :
    read ⟨.error, names⟩ (withoutMalformed bytes) =
      ⟨.ok (TransformSet.follow ∅ ((Text.lines bytes).filterMap directive?)), []⟩ := by
  refine eq_of_readLines_error (readLines_eq_ok_iff.2 ⟨?_, ?_⟩)
  · exact not_endsReading_withoutMalformed htext
  · rw [filterMap_directive?_withoutMalformed]

theorem skipsMalformed_of_read (names names' : ClassNames)
    (h : (read ⟨.skip, names⟩ bytes).result = .ok s) :
    SkipsMalformed (read ⟨.skip, names⟩) (read ⟨.error, names'⟩) bytes s := by
  have hskipped : (read ⟨.skip, names⟩ bytes).skipped = diagnostics 1 (Text.lines bytes) :=
    skipped_of_readLines h
  obtain ⟨hends, rfl⟩ := readLines_eq_ok_iff.1 h
  have htext : ∀ l ∈ Text.lines bytes, Text.decode? l ≠ none := fun l hl hnone =>
    hends l hl (.inl hnone)
  have hemptied := read_withoutMalformed htext names'
  rw [withoutMalformed, ← hskipped] at hemptied
  exact {
    increasing := hskipped ▸ diagnostics_increasing 1 _
    mem_skipped := fun d => hskipped ▸ mem_diagnostics
    events := rfl
    warnings := fun e he => by
      obtain ⟨d, -, rfl⟩ := List.mem_map.1 he
      rfl
    strict_ok := fun hnone => by
      have hnothing : ∀ n, isReported [] n = false := fun _ => rfl
      rwa [hnone, Text.emptied_eq_self hnothing] at hemptied
    strict_error := fun d ds hcons => readLines_eq_malformed htext (hskipped.symm.trans hcons)
    emptied := hemptied }

/-- Lenient and strict reading agree, whatever the source. -/
theorem lenient_strict_agree (names names' : ClassNames) (bytes : List UInt8) :
    PoliciesAgree (read ⟨.skip, names⟩) (read ⟨.error, names'⟩) bytes where
  fails_iff := by
    refine readLines_fails_iff.trans (exists_congr fun l => and_congr_right fun _ => ?_)
    exact or_iff_left fun h => nomatch h.1
  fails e h := by
    obtain ⟨l, hl, hends⟩ := readLines_fails_iff.1 ⟨e, h⟩
    have hnone : Text.decode? l = none := hends.resolve_right fun h => nomatch h.1
    exact ⟨eq_notUtf8_of_readLines h, readLines_fails_iff.2 ⟨l, hl, .inl hnone⟩⟩
  skips _ h := skipsMalformed_of_read names names' h

end Format

end Openness
