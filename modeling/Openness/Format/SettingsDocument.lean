import Openness.Document.Reader
import Openness.Format.Error

/-!
# Settings from a document

The settings of the text format are written as a document with two keys, each
for a choice by name (`Settings.ofEntries`). A choice may be written as a text,
or as a table whose only key is the name and whose only item is empty. Keys are
looked at in the order of the document, and the first one that is wrong is
reported.

How a text is taken apart into keys and items is not settled here, but by a
library for documents, for which `Openness.Document` stands in
(`Settings.ofDocument`).
-/

namespace Openness.Format

open Document

/-- Whether an item is there but holds nothing. -/
def isHollow : Item → Bool
  | .array [] => true
  | .braces [] => true
  | .table _ [] => true
  | _ => false

/-- The choice that an item makes among some names. -/
def choice (names : List String) : Item → Except SettingsError String
  | .text name => if name ∈ names then .ok name else .error (.unknownChoice name names)
  | .braces [(name, item)] => ofPair name item
  | .table _ [(name, item)] => ofPair name item
  | _ => .error .malformed
where
  /-- A choice written as a key with an item. -/
  ofPair (name : String) (item : Item) : Except SettingsError String :=
    if name ∉ names then .error (.unknownChoice name names)
    else if isHollow item then .ok name
    else .error .malformed

namespace Settings

/-- The key for what becomes of malformed lines. -/
def malformedLinesKey : String := "malformed-lines"

/-- The key for how class names are written. -/
def classNamesKey : String := "class-names"

/-- The settings with one of them as an entry of a document says. -/
def set (settings : Settings) (entry : String × Item) : Except SettingsError Settings :=
  if entry.1 = malformedLinesKey then do
    let name ← choice [MalformedLines.error.label, MalformedLines.skip.label] entry.2
    return { settings with
      malformedLines := if name = MalformedLines.skip.label then .skip else .error }
  else if entry.1 = classNamesKey then do
    let name ← choice [ClassNames.internal.label, ClassNames.binary.label] entry.2
    return { settings with
      classNames := if name = ClassNames.binary.label then .binary else .internal }
  else .error (.unknownSetting entry.1 [malformedLinesKey, classNamesKey])

/-- The settings that the entries of a document make. What they leave out is as usual. -/
def ofEntries (entries : Entries) : Except SettingsError Settings := entries.foldlM set {}

/-- The settings of a document. -/
def ofDocument (document : String) : Except SettingsError Settings :=
  match Document.read document with
  | none => .error .malformed
  | some entries => ofEntries entries

end Settings

end Openness.Format
