import Openness.Document.Item
import Openness.Document.Scalar
import Openness.Document.Scanner

/-!
# Texts in documents

The smallest parts of a TOML document: blanks, comments, the ends of lines, and
texts (`textValue`). A text stands between quotation marks, where a backslash
starts a character in another spelling, or between apostrophes, where every
character stands for itself. Between three marks on each side it may go over
several lines.

This is a part of what stands in for a TOML library (see `Openness.Document.Reader`).
-/

namespace Openness.Document

open Scanner

/-! ## Characters -/

/-- The quotation mark. -/
def quote : Char := '\x22'

/-- The apostrophe. -/
def apostrophe : Char := '\x27'

/-- The backslash. -/
def backslash : Char := '\x5c'

/-- Whether a character is a blank within a line. -/
def isSpace (c : Char) : Bool := c = ' ' || c = '\t'

/-- Whether a character may stand in a comment: every one but the control
    characters, and the tab. -/
def isPlain (c : Char) : Bool := c = '\t' || (0x20 ≤ c.toNat && c.toNat ≠ 0x7F)

/-- Whether a character stands for itself between quotation marks. -/
def isBasic (c : Char) : Bool := isPlain c && c ≠ quote && c ≠ backslash

/-- Whether a character may stand between apostrophes. -/
def isLiteral (c : Char) : Bool := isPlain c && c ≠ apostrophe

/-- Whether a character may stand in a key without quotation marks. -/
def isBare (c : Char) : Bool := c.isAlphanum || c = '_' || c = '-'

/-! ## Blanks -/

/-- Blanks within a line. -/
def spaces : Scanner Unit := do let _ ← run isSpace

/-- The end of a line. -/
def newline : Scanner Unit := text ['\n'] <|> text ['\r', '\n']

/-- A comment, up to the end of the line. -/
def comment : Scanner Unit := do
  text ['#']
  let _ ← run isPlain

/-- Blanks, ends of lines and comments. -/
def space : Scanner Unit := do
  let _ ← many ((do let _ ← run₁ isSpace) <|> newline <|> comment)

/-- What may follow an assignment or a header in its line, and the end of the
    line. -/
def lineEnd : Scanner Unit := do
  spaces
  let _ ← optional comment
  newline <|> finished

/-! ## Texts -/

/-- The character that so many digits of base 16 stand for. -/
def codePoint (digits : Nat) : Scanner Char := fun cs =>
  let ds := cs.take digits
  let n := valueOf 16 ds
  if ds.length = digits && ds.all (isDigitOf 16) && (n < 0xD800 || (0xDFFF < n && n < 0x110000))
  then some (Char.ofNat n, cs.drop digits)
  else none

/-- A character behind a backslash. -/
def escaped : Scanner Char := do
  text [backslash]
  match ← one fun _ => true with
  | 'b' => pure '\x08'
  | 't' => pure '\t'
  | 'n' => pure '\n'
  | 'f' => pure '\x0c'
  | 'r' => pure '\r'
  | 'u' => codePoint 4
  | 'U' => codePoint 8
  | c => if c = quote || c = backslash then pure c else failure

/-- A text between quotation marks, within a line. -/
def basicText : Scanner (List Char) := do
  text [quote]
  let parts ← many (run₁ isBasic <|> return [← escaped])
  text [quote]
  return parts.flatten

/-- A text between apostrophes, within a line. -/
def literalText : Scanner (List Char) := do
  text [apostrophe]
  let content ← run isLiteral
  text [apostrophe]
  return content

/-- The end of a line as part of a text. -/
def newlineText : Scanner (List Char) := do
  newline
  return ['\n']

/-- A backslash at the end of a line, which stands for nothing; nor do the
    blanks and ends of lines after it. -/
def joinedLines : Scanner (List Char) := do
  text [backslash]
  spaces
  newline
  let _ ← many ((do let _ ← run₁ isSpace) <|> newline)
  return []

/-- A text between three marks on each side. A newline right at its start does
    not count. Up to two marks may stand anywhere in the text, also right before
    the end. -/
def longText (mark : Char) (content : Scanner (List Char)) : Scanner (List Char) := do
  text [mark, mark, mark]
  let _ ← optional newline
  let marks : Scanner (List Char) := do
    let ms ← run₁ (· = mark)
    require (ms.length ≤ 2)
    return ms
  let parts ← many (content <|> marks)
  let closing ← run (· = mark)
  require (3 ≤ closing.length && closing.length ≤ 5)
  return parts.flatten ++ closing.drop 3

/-- A text of any kind. -/
def textValue : Scanner Item := do
  let content ←
    longText quote (run₁ isBasic <|> joinedLines <|> (return [← escaped]) <|> newlineText)
      <|> basicText
      <|> longText apostrophe (run₁ isLiteral <|> newlineText)
      <|> literalText
  return .text (String.ofList content)

end Openness.Document
