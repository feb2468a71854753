/-!
# Scanners

A scanner reads something from the front of a text and leaves the rest, or
fails (`Scanner`). Scanners are sequenced as a monad, and `p <|> q` scans with
`q` what `p` fails on. What is repeated (`Scanner.many`) takes a character in
each round, so that there are no more rounds than characters.

This is a part of what stands in for a TOML library (see `Openness.Document.Reader`).
-/

namespace Openness.Document

/-- Reads something from the front of a text. -/
abbrev Scanner := StateT (List Char) Option

namespace Scanner

variable {α : Type}

/-- Takes a character with a property. -/
def one (p : Char → Bool) : Scanner Char
  | [] => none
  | c :: cs => if p c then some (c, cs) else none

/-- Takes the longest run of characters with a property, which may be empty. -/
def run (p : Char → Bool) : Scanner (List Char) :=
  fun cs => some (cs.takeWhile p, cs.dropWhile p)

/-- Takes the longest run of characters with a property, which is not empty. -/
def run₁ (p : Char → Bool) : Scanner (List Char) := fun cs =>
  let taken := cs.takeWhile p
  if taken.isEmpty then none else some (taken, cs.dropWhile p)

/-- Takes a given text. -/
def text : List Char → Scanner Unit
  | [] => pure ()
  | c :: cs => do
    let _ ← one (· = c)
    text cs

/-- Succeeds where nothing is left. -/
def finished : Scanner Unit := fun cs => if cs.isEmpty then some ((), cs) else none

/-- Succeeds if a condition holds. -/
def require (b : Bool) : Scanner Unit := if b then pure () else failure

/-- Scans again and again, until that fails, but no more than so many times. -/
def atMost (p : Scanner α) : Nat → Scanner (List α)
  | 0, cs => some ([], cs)
  | rounds + 1, cs =>
    match p cs with
    | none => some ([], cs)
    | some (a, rest) => (atMost p rounds rest).map fun (as, rest) => (a :: as, rest)

/-- Scans again and again, until that fails. -/
def many (p : Scanner α) : Scanner (List α) := fun cs =>
  match p cs with
  | none => some ([], cs)
  | some (a, rest) => (atMost p rest.length rest).map fun (as, rest) => (a :: as, rest)

/-- Scans items with separators between them. -/
def separated (p : Scanner α) (separator : Scanner Unit) : Scanner (List α) := do
  let a ← p
  let as ← many (do separator; p)
  return a :: as

end Scanner

end Openness.Document
