import Openness.Event
import Openness.Format.Error
import Openness.Text.Lines

/-!
# Reading the text format

A source is read line by line, and every directive is joined into one set
(`read`). A line that is not UTF-8 ends the reading; so does a malformed one,
unless malformed lines are to be skipped. Skipped lines are reported, also when
the reading fails later on (`Reading.events`).

Reading into a set that has something in it changes it only if the whole source
can be read (`readInto`).

* `readLines_append`: reading lines is reading some of them and then the others.
-/

namespace Openness.Format

/-- A line that was skipped. -/
structure Diagnostic where
  /-- The number of the line, counted from one. -/
  line : Nat
  /-- What is wrong with it. -/
  cause : LineError
  /-- The line. -/
  text : String
  deriving DecidableEq, Repr

/-- What comes of reading a source. -/
structure Reading where
  /-- The set that was read, or why there is none. -/
  result : Except FormatError TransformSet
  /-- The lines that were skipped. -/
  skipped : List Diagnostic := []

namespace Reading

/-- Puts a skipped line in front. -/
def skip (d : Diagnostic) (r : Reading) : Reading := { r with skipped := d :: r.skipped }

/-- A report for every skipped line. -/
def events (r : Reading) : List Event :=
  r.skipped.map fun d => .skippedLine d.line d.cause.message

/-- The set and the skipped lines, or why there is no set. -/
def outcome (r : Reading) : Except FormatError (TransformSet × List Diagnostic) :=
  match r.result with
  | .ok s => .ok (s, r.skipped)
  | .error e => .error e

end Reading

/-- Reads lines, the first of which has the given number, into a set. -/
def readLines (policy : MalformedLines) : Nat → List (List UInt8) → TransformSet → Reading
  | _, [], s => ⟨.ok s, []⟩
  | n, l :: ls, s =>
    match Text.decode? l with
    | none => ⟨.error (.io .notUtf8), []⟩
    | some text =>
      match Directive.parse text, policy with
      | .ok none, _ => readLines policy (n + 1) ls s
      | .ok (some d), _ => readLines policy (n + 1) ls (d.apply s)
      | .error e, .error => ⟨.error (.malformed n e), []⟩
      | .error e, .skip => (readLines policy (n + 1) ls s).skip ⟨n, e, text⟩

/-- Reading lines is reading some of them and then the others into what comes of
    that. -/
theorem readLines_append (policy : MalformedLines) (n : Nat) (as bs : List (List UInt8))
    (s : TransformSet) :
    readLines policy n (as ++ bs) s =
      match (readLines policy n as s).result with
      | .ok t =>
        let rest := readLines policy (n + as.length) bs t
        { rest with skipped := (readLines policy n as s).skipped ++ rest.skipped }
      | .error _ => readLines policy n as s := by
  induction as generalizing n s with
  | nil => rfl
  | cons l ls ih =>
    have hn : n + (l :: ls).length = n + 1 + ls.length := by
      rw [List.length_cons, Nat.add_right_comm, Nat.add_assoc]
    rw [List.cons_append, hn]
    simp only [readLines]
    split
    · rfl
    · split
      · exact ih (n + 1) s
      · exact ih (n + 1) _
      · rfl
      · rw [ih (n + 1) s]
        simp only [Reading.skip]
        split <;> rfl

/-- Reads a source of bytes. -/
def read (settings : Settings) (bytes : List UInt8) : Reading :=
  readLines settings.malformedLines 1 (Text.lines bytes) ∅

/-- Reads a text. -/
def parse (settings : Settings) (text : String) : Reading := read settings (Text.encode text)

/-- The set that a reading leaves of the set it was read into: the two merged,
    or the set as it was if the reading failed. -/
def Reading.mergeInto (r : Reading) (s : TransformSet) : TransformSet :=
  match r.result with
  | .ok t => s.merge t
  | .error _ => s

/-- Reads a source of bytes into a set. -/
def readInto (settings : Settings) (bytes : List UInt8) (s : TransformSet) :
    TransformSet × Reading :=
  let r := read settings bytes
  (r.mergeInto s, r)

end Openness.Format
