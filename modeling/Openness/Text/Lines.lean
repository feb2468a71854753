/-!
# Lines of bytes

A source of bytes is cut into lines before it is decoded, so that one line that
is not UTF-8 does not keep the lines before it from being read. A newline ends a
line and belongs to none; a carriage return right before it is dropped with it.
What follows the last newline is a line unless it is empty, and keeps its
carriage return.

* `lines`: the lines of a source, as bytes;
* `decode?_encode`: a text is read back from its bytes.
-/

namespace Openness.Text

/-- The byte that ends a line. -/
def newline : UInt8 := 0x0A

/-- The byte that may stand before it. -/
def carriageReturn : UInt8 := 0x0D

/-- A line without the carriage return at its end. -/
def dropReturn (line : List UInt8) : List UInt8 :=
  if line.getLast? = some carriageReturn then line.dropLast else line

/-- The lines of a source. -/
def lines (bytes : List UInt8) : List (List UInt8) :=
  match _h : bytes.dropWhile (· != newline) with
  | [] => if bytes.isEmpty then [] else [bytes]
  | _ :: rest => dropReturn (bytes.takeWhile (· != newline)) :: lines rest
termination_by bytes.length
decreasing_by
  have h : bytes.dropWhile (· != newline) = _ :: rest := ‹_›
  have := (List.dropWhile_suffix (l := bytes) (· != newline)).length_le
  rw [h] at this
  exact this

/-- The text that bytes encode in UTF-8. -/
def decode? (bytes : List UInt8) : Option String := String.fromUTF8? bytes.toByteArray

/-- The bytes of a text in UTF-8. -/
def encode (text : String) : List UInt8 := text.toUTF8.data.toList

/-- A text is read back from its bytes. -/
theorem decode?_encode (text : String) : decode? (encode text) = some text := by
  have h : text.toUTF8.data.toList.toByteArray = text.toUTF8 := by
    ext1
    simp
  have valid : text.toUTF8.IsValidUTF8 := text.isValidUTF8
  rw [decode?, encode, h, String.fromUTF8?, dif_pos valid]
  rfl

theorem encode_ofList (cs : List Char) :
    encode (String.ofList cs) = cs.flatMap String.utf8EncodeChar := by
  simp [encode, List.utf8Encode]

end Openness.Text
