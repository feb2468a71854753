import Openness.Document.Text

/-!
# Keys and values in documents

A key is a sequence of parts with dots between them (`key`), and a value is a
text, a scalar, a list of values, or a table between braces (`value`). Values may
stand inside each other up to a limit of levels, and the scanner of values is
built up level by level (`valueWithin`).

This is a part of what stands in for a TOML library (see `Openness.Document.Reader`).
-/

namespace Openness.Document

open Scanner

/-! ## Keys -/

/-- One part of a key. -/
def keyPart : Scanner String := do
  spaces
  let part ← run₁ isBare <|> basicText <|> literalText
  spaces
  return String.ofList part

/-- A key may have fewer parts than this, and a value fewer levels. -/
def depthLimit : Nat := 80

/-- A key: the parts that lead to it, and its last part. -/
def key : Scanner (List String × String) := do
  let parts ← separated keyPart (text ['.'])
  require (parts.length < depthLimit)
  match parts.getLast? with
  | some last => return (parts.dropLast, last)
  | none => failure

/-! ## Values -/

/-- A number, a truth value or a time. A blank may stand between day and time. -/
def scalarValue : Scanner Item := do
  let cs ← run₁ isScalarChar
  require (isScalar cs)
  if isDate cs then
    let _ ← optional do
      text [' ']
      let time ← run₁ isScalarChar
      require (isTimeWithOffset time)
  return .scalar

/-- A list of values. A comma may follow the last one. -/
def arrayOf (value : Scanner Item) : Scanner Item := do
  text ['[']
  let item : Scanner Item := do
    space
    let v ← value
    space
    return v
  let items ← optional do
    let items ← separated item (text [','])
    let _ ← optional (text [','])
    return items
  space
  text [']']
  return .array (items.getD [])

/-- An assignment of a value to a key. -/
def assignmentOf (value : Scanner Item) : Scanner (List String × String × Item) := do
  let (way, last) ← key
  text ['=']
  spaces
  let v ← value
  return (way, last, v)

/-- Makes assignments one after the other. -/
def assignAll (es : Entries) : List (List String × String × Item) → Option Entries
  | [] => some es
  | (way, last, v) :: rest => (Entries.assign? last v way es).bind (assignAll · rest)

/-- A table between braces. -/
def bracesOf (value : Scanner Item) : Scanner Item := do
  text ['\x7b']
  let item : Scanner (List String × String × Item) := do
    let a ← assignmentOf value
    spaces
    return a
  let items ← optional (separated item (text [',']))
  spaces
  text ['\x7d']
  match assignAll [] (items.getD []) with
  | some es => return .braces es
  | none => failure

/-- A value with at most so many levels. -/
def valueWithin : Nat → Scanner Item
  | 0 => textValue <|> scalarValue
  | levels + 1 =>
    textValue <|> scalarValue <|> arrayOf (valueWithin levels) <|> bracesOf (valueWithin levels)

/-- A value. -/
def value : Scanner Item := valueWithin (depthLimit - 1)

end Openness.Document
