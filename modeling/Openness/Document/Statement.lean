import Openness.Document.Value

/-!
# Statements of a document

A document is a sequence of lines. Some say nothing; the others are statements:
an assignment, or a header, which starts a table (`statements`).

This is a part of what stands in for a TOML library (see `Openness.Document.Reader`).
-/

namespace Openness.Document

open Scanner

/-- A line that says something. -/
inductive Statement where
  /-- A value is assigned to a key. -/
  | assignment (way : List String) (key : String) (item : Item)
  /-- A table starts. -/
  | table (way : List String) (key : String)
  /-- One more of some tables of the same name starts. -/
  | element (way : List String) (key : String)

/-- A line that says something. -/
def statement : Scanner Statement :=
  (do
    text ['[', '[']
    let (way, last) ← key
    text [']', ']']
    lineEnd
    return .element way last)
  <|> (do
    text ['[']
    let (way, last) ← key
    text [']']
    lineEnd
    return .table way last)
  <|> (do
    let (way, last, item) ← assignmentOf value
    lineEnd
    return .assignment way last item)

/-- A line that says nothing. -/
def blankLine : Scanner Unit :=
  newline <|> (do
    comment
    newline <|> finished)

/-- The statements of a document. A byte order mark may stand in front. -/
def statements : Scanner (List Statement) := do
  let _ ← optional (text ['\uFEFF'])
  spaces
  let lines ← many (do
    let line ← (do blankLine; return none) <|> (return some (← statement))
    spaces
    return line)
  finished
  return lines.filterMap id

end Openness.Document
