/-!
# Settings of the text format

How the text format is read and written: what becomes of a line that cannot be
read, and how the parts of class names are separated in what is written.
-/

namespace Openness.Format

/-- What becomes of a line that cannot be read. -/
inductive MalformedLines where
  /-- It ends the reading. -/
  | error
  /-- It is skipped. -/
  | skip
  deriving DecidableEq, Repr, Inhabited

/-- How the parts of a class name are separated. -/
inductive ClassNames where
  /-- By slashes, as in class files. -/
  | internal
  /-- By dots. -/
  | binary
  deriving DecidableEq, Repr, Inhabited

/-- How the text format is read and written. -/
structure Settings where
  /-- What becomes of a line that cannot be read. -/
  malformedLines : MalformedLines := .error
  /-- How class names are written. -/
  classNames : ClassNames := .internal
  deriving DecidableEq, Repr, Inhabited

/-- How a choice is spelled. -/
def MalformedLines.label : MalformedLines → String
  | error => "error"
  | skip => "skip"

/-- How a choice is spelled. -/
def ClassNames.label : ClassNames → String
  | internal => "internal"
  | binary => "binary"

/-- An internal class name as it is written. -/
def ClassNames.render : ClassNames → List Char → List Char
  | internal, name => name
  | binary, name => name.map fun c => if c = '/' then '.' else c

/-- A written class name as an internal one. -/
def internalName (name : List Char) : List Char := name.map fun c => if c = '.' then '/' else c

end Openness.Format
