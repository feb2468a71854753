import Openness.Format.Error
import Openness.Text.Lines

/-!
# Writing the text format

A set is written as one line for every transform that asks for something, class
by class (`TransformSet.directives`, `write`). Classes that nothing is asked of
leave no trace.
-/

namespace Openness

/-- What a class says in the text format: the class, all its fields, single
    fields, all its methods, single methods. -/
def ClassEntry.directives (c : ClassEntry) : List Format.Directive :=
  c.transforms.entries.map fun e => ⟨e.2, c.name, e.1⟩

/-- What a set says in the text format, class by class. -/
def TransformSet.directives (s : TransformSet) : List Format.Directive :=
  s.classes.toList.flatMap ClassEntry.directives

namespace Format

/-- The characters of a written set. -/
def writtenChars (names : ClassNames) (s : TransformSet) : List Char :=
  s.directives.flatMap fun d => d.chars names ++ ['\n']

/-- A set as a text. -/
def write (settings : Settings) (s : TransformSet) : String :=
  String.ofList (writtenChars settings.classNames s)

/-- Writes a set to a place with room for so many bytes. -/
def writeWithin (settings : Settings) (room : Nat) (s : TransformSet) :
    Except FormatError String :=
  let text := write settings s
  if text.utf8ByteSize ≤ room then .ok text else .error (.io .full)

end Format

end Openness
