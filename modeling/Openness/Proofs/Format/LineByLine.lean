import Mathlib.Data.List.Basic
import Openness.Format.Reader
import Openness.Proofs.Format.Saying

/-!
# Reading line by line

What comes of a reading is put together of what its lines come to, each by itself. A line
may be no text at all; else it is malformed (`diagnostic?`), or it is well-formed and
perhaps says something (`directive?`). Which lines end the reading (`EndsReading`) depends
on what becomes of malformed ones.

* `readLines_eq_ok_iff`: a reading succeeds exactly if no line ends it, and does then what
  the well-formed lines say, in their order;
* `skipped_of_readLines`: where malformed lines are skipped, they are reported, and nothing
  else is;
* `readLines_eq_malformed`: where they are not, the first of them is what the reading fails
  for.
-/

namespace Openness.Format

variable {policy : MalformedLines} {n : Nat} {l : List UInt8} {ls : List (List UInt8)}
  {s t : TransformSet} {d : Diagnostic}

/-! ## What lines come to -/

/-- What a line says, if it is well-formed and says something. -/
def directive? (line : List UInt8) : Option Directive :=
  match (Text.decode? line).map Directive.parse with
  | some (.ok d) => d
  | _ => none

/-- What is wrong with the line of a number, if it is a text and malformed. -/
def diagnostic? (n : Nat) (line : List UInt8) : Option Diagnostic :=
  (Text.decode? line).bind fun text =>
    match Directive.parse text with
    | .ok _ => none
    | .error e => some ⟨n, e, text⟩

/-- What is wrong with lines, the first of which has the given number. -/
def diagnostics (n : Nat) (ls : List (List UInt8)) : List Diagnostic :=
  (ls.zipIdx n).filterMap fun e => diagnostic? e.2 e.1

/-- A line ends the reading if it is no text or, unless malformed lines are skipped, if it
    is malformed. -/
def EndsReading (policy : MalformedLines) (line : List UInt8) : Prop :=
  Text.decode? line = none ∨
    policy = .error ∧ ∃ text e, Text.decode? line = some text ∧ Directive.parse text = .error e

theorem diagnostic?_eq_some_iff :
    diagnostic? n l = some d ↔
      d.line = n ∧ Text.decode? l = some d.text ∧ Directive.parse d.text = .error d.cause := by
  rw [diagnostic?, Option.bind_eq_some_iff]
  constructor
  · rintro ⟨text, htext, h⟩
    split at h
    · cases h
    · rename_i hparse
      cases h
      exact ⟨rfl, htext, hparse⟩
  · rintro ⟨rfl, htext, hparse⟩
    exact ⟨d.text, htext, by rw [hparse]⟩

theorem directive?_eq_some_iff {e : Directive} :
    directive? l = some e ↔ ∃ text, Text.decode? l = some text ∧ Directive.parse text = .ok (some e) := by
  rw [directive?]
  cases Text.decode? l with
  | none => simp
  | some text => cases h : Directive.parse text <;> simp [h]

/-- A malformed line says nothing. -/
theorem directive?_of_diagnostic? (h : diagnostic? n l = some d) : directive? l = none := by
  obtain ⟨-, htext, hparse⟩ := diagnostic?_eq_some_iff.1 h
  rw [directive?, htext, Option.map_some, hparse]

/-- Whether a line ends the reading, by its diagnostic under any number. -/
theorem endsReading_iff (n : Nat) :
    EndsReading policy l ↔
      Text.decode? l = none ∨ policy = .error ∧ ∃ d, diagnostic? n l = some d := by
  refine or_congr_right (and_congr_right fun _ => ⟨?_, ?_⟩)
  · rintro ⟨text, e, htext, hparse⟩
    exact ⟨⟨n, e, text⟩, diagnostic?_eq_some_iff.2 ⟨rfl, htext, hparse⟩⟩
  · rintro ⟨d, hd⟩
    obtain ⟨-, htext, hparse⟩ := diagnostic?_eq_some_iff.1 hd
    exact ⟨d.text, d.cause, htext, hparse⟩

theorem diagnostics_cons (n : Nat) (l : List UInt8) (ls : List (List UInt8)) :
    diagnostics n (l :: ls) = (diagnostic? n l).toList ++ diagnostics (n + 1) ls := by
  rw [diagnostics, List.zipIdx_cons, List.filterMap_cons]
  cases diagnostic? n l <;> rfl

/-- What is reported is what is wrong with some line, under its number. -/
theorem mem_diagnostics :
    d ∈ diagnostics n ls ↔
      ∃ l, (l, d.line) ∈ ls.zipIdx n ∧ Text.decode? l = some d.text ∧
        Directive.parse d.text = .error d.cause := by
  rw [diagnostics, List.mem_filterMap]
  constructor
  · rintro ⟨⟨l, i⟩, hl, hd⟩
    obtain ⟨rfl, h⟩ := diagnostic?_eq_some_iff.1 hd
    exact ⟨l, hl, h⟩
  · rintro ⟨l, hl, h⟩
    exact ⟨(l, d.line), hl, diagnostic?_eq_some_iff.2 ⟨rfl, h⟩⟩

/-- Lines are reported by increasing number, none of them twice. -/
theorem diagnostics_increasing (n : Nat) (ls : List (List UInt8)) :
    (diagnostics n ls).Pairwise (·.line < ·.line) := by
  have hnumbers : (ls.zipIdx n).Pairwise (·.2 < ·.2) := by
    rw [← List.pairwise_map (f := Prod.snd), List.zipIdx_map_snd]
    exact List.pairwise_lt_range' 1
  refine hnumbers.filterMap _ fun e e' hlt d hd d' hd' => ?_
  rw [(diagnostic?_eq_some_iff.1 hd).1, (diagnostic?_eq_some_iff.1 hd').1]
  exact hlt

/-- The number of a line is reported exactly if something is wrong with the line. -/
theorem exists_mem_diagnostics_iff {i : Nat} (hl : (l, i) ∈ ls.zipIdx n) :
    (∃ d ∈ diagnostics n ls, d.line = i) ↔ ∃ d, diagnostic? i l = some d := by
  constructor
  · rintro ⟨d, hd, rfl⟩
    obtain ⟨k, hk, h⟩ := mem_diagnostics.1 hd
    -- There is one line of the number only.
    rw [List.mk_mem_zipIdx_iff_le_and_getElem?_sub] at hl hk
    obtain rfl : l = k := Option.some.inj (hl.2.symm.trans hk.2)
    exact ⟨d, diagnostic?_eq_some_iff.2 ⟨rfl, h⟩⟩
  · rintro ⟨d, hd⟩
    obtain ⟨rfl, h⟩ := diagnostic?_eq_some_iff.1 hd
    exact ⟨d, mem_diagnostics.2 ⟨l, hl, h⟩, rfl⟩

/-! ## The first line -/

theorem readLines_cons_of_not_text (h : Text.decode? l = none) :
    readLines policy n (l :: ls) s = ⟨.error (.io .notUtf8), []⟩ := by
  rw [readLines, h]

/-- A well-formed line is followed, and the reading goes on. -/
theorem readLines_cons_of_well_formed (htext : Text.decode? l ≠ none)
    (h : diagnostic? n l = none) :
    readLines policy n (l :: ls) s = readLines policy (n + 1) ls (s.follow (directive? l).toList) := by
  obtain ⟨text, htext⟩ := Option.ne_none_iff_exists'.1 htext
  rw [diagnostic?, htext, Option.bind_some] at h
  rw [readLines, directive?, htext, Option.map_some]
  cases hparse : Directive.parse text with
  | ok d => cases d <;> simp only [hparse] <;> rfl
  | error e =>
    rw [hparse] at h
    cases h

/-- A malformed line is what the reading fails for. -/
theorem readLines_error_cons_of_malformed (h : diagnostic? n l = some d) :
    readLines .error n (l :: ls) s = ⟨.error (.malformed d.line d.cause), []⟩ := by
  obtain ⟨rfl, htext, hparse⟩ := diagnostic?_eq_some_iff.1 h
  rw [readLines, htext]
  simp only [hparse]

/-- A malformed line is reported, and the reading goes on without it. -/
theorem readLines_skip_cons_of_malformed (h : diagnostic? n l = some d) :
    readLines .skip n (l :: ls) s = (readLines .skip (n + 1) ls s).skip d := by
  obtain ⟨rfl, htext, hparse⟩ := diagnostic?_eq_some_iff.1 h
  rw [readLines, htext]
  simp only [hparse]

/-! ## All lines -/

/-- A reading that has a set is that of the set. -/
theorem Reading.result_eq_ok {r : Reading} {s : TransformSet} (h : r.result.toOption = some s) :
    r.result = .ok s := by
  cases hr : r.result with
  | error e =>
    rw [hr] at h
    cases h
  | ok t =>
    rw [hr] at h
    exact congrArg Except.ok (Option.some.inj h)

/-- A reading succeeds exactly if no line ends it. It does what the well-formed lines say,
    one after the other. -/
theorem readLines_eq_ok_iff :
    (readLines policy n ls s).result = .ok t ↔
      (∀ l ∈ ls, ¬EndsReading policy l) ∧ t = s.follow (ls.filterMap directive?) := by
  induction ls generalizing n s with
  | nil => simp [readLines, eq_comm]
  | cons l ls ih =>
    rw [List.forall_mem_cons, List.filterMap_cons, endsReading_iff n]
    by_cases htext : Text.decode? l = none
    · simp [readLines_cons_of_not_text, htext]
    cases hd : diagnostic? n l with
    | none =>
      rw [readLines_cons_of_well_formed htext hd, ih]
      cases directive? l <;> simp [htext]
    | some d =>
      rw [directive?_of_diagnostic? hd]
      cases policy with
      | error => simp [readLines_error_cons_of_malformed hd]
      | skip => simp [readLines_skip_cons_of_malformed hd, Reading.skip, ih, htext]

/-- A reading fails exactly if some line ends it. -/
theorem readLines_fails_iff :
    (∃ e, (readLines policy n ls s).result = .error e) ↔ ∃ l ∈ ls, EndsReading policy l := by
  have hfails : (∃ e, (readLines policy n ls s).result = .error e) ↔
      ¬∃ t, (readLines policy n ls s).result = .ok t := by
    cases (readLines policy n ls s).result <;> simp
  simp only [hfails, readLines_eq_ok_iff, exists_and_left, exists_eq, and_true, not_forall,
    not_not, exists_prop]

/-- Where malformed lines are skipped, a reading fails only for a line that is no text. -/
theorem eq_notUtf8_of_readLines {e : FormatError} (h : (readLines .skip n ls s).result = .error e) :
    e = .io .notUtf8 := by
  induction ls generalizing n s with
  | nil => cases h
  | cons l ls ih =>
    by_cases htext : Text.decode? l = none
    · rw [readLines_cons_of_not_text htext] at h
      cases h
      rfl
    cases hd : diagnostic? n l with
    | none =>
      rw [readLines_cons_of_well_formed htext hd] at h
      exact ih h
    | some d =>
      rw [readLines_skip_cons_of_malformed hd] at h
      exact ih h

/-- Where malformed lines are skipped, they are reported in their order, and nothing else
    is. -/
theorem skipped_of_readLines (h : (readLines .skip n ls s).result = .ok t) :
    (readLines .skip n ls s).skipped = diagnostics n ls := by
  induction ls generalizing n s with
  | nil => rfl
  | cons l ls ih =>
    rw [diagnostics_cons]
    by_cases htext : Text.decode? l = none
    · rw [readLines_cons_of_not_text htext] at h
      cases h
    cases hd : diagnostic? n l with
    | none =>
      rw [readLines_cons_of_well_formed htext hd] at h ⊢
      exact ih h
    | some d =>
      rw [readLines_skip_cons_of_malformed hd] at h ⊢
      exact congrArg (d :: ·) (ih h)

/-- Where malformed lines are not skipped, there is nothing to report. -/
theorem skipped_readLines_error (n : Nat) (ls : List (List UInt8)) (s : TransformSet) :
    (readLines .error n ls s).skipped = [] := by
  induction ls generalizing n s with
  | nil => rfl
  | cons l ls ih =>
    by_cases htext : Text.decode? l = none
    · rw [readLines_cons_of_not_text htext]
    cases hd : diagnostic? n l with
    | none =>
      rw [readLines_cons_of_well_formed htext hd]
      exact ih ..
    | some d => rw [readLines_error_cons_of_malformed hd]

/-- Where malformed lines are not skipped, a reading that succeeds is its set. -/
theorem eq_of_readLines_error (h : (readLines .error n ls s).result = .ok t) :
    readLines .error n ls s = ⟨.ok t, []⟩ := by
  rw [← h, ← skipped_readLines_error n ls s]

/-- Where malformed lines are not skipped, a source whose lines are text fails for the first
    of them. -/
theorem readLines_eq_malformed {ds : List Diagnostic} (htext : ∀ l ∈ ls, Text.decode? l ≠ none)
    (h : diagnostics n ls = d :: ds) :
    (readLines .error n ls s).result = .error (.malformed d.line d.cause) := by
  induction ls generalizing n s with
  | nil => cases h
  | cons l ls ih =>
    obtain ⟨hl, htext⟩ := List.forall_mem_cons.1 htext
    rw [diagnostics_cons] at h
    cases hd : diagnostic? n l with
    | none =>
      rw [hd] at h
      rw [readLines_cons_of_well_formed hl hd]
      exact ih htext h
    | some e =>
      rw [hd] at h
      obtain ⟨rfl, -⟩ := List.cons.inj h
      rw [readLines_error_cons_of_malformed hd]

end Openness.Format
