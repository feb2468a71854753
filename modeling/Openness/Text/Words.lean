/-!
# Words

A text is a sequence of words with blanks between them. What a blank is comes
from a table (`blankRanges`): the characters with the Unicode property
White_Space.

* `words_cons_blank`, `words_append_blank`: a blank ends a word and leaves no
  other trace;
* `words_word`: a text without blanks is one word;
* `mem_words`: words are not empty and hold no blanks.
-/

namespace Openness.Text

/-- The code points with the property White_Space, as ranges with both ends. -/
def blankRanges : List (Nat × Nat) :=
  [(0x0009, 0x000D), (0x0020, 0x0020), (0x0085, 0x0085), (0x00A0, 0x00A0), (0x1680, 0x1680),
   (0x2000, 0x200A), (0x2028, 0x2029), (0x202F, 0x202F), (0x205F, 0x205F), (0x3000, 0x3000)]

/-- Whether a character is a blank. -/
def isBlank (c : Char) : Bool :=
  blankRanges.any fun r => r.1 ≤ c.toNat && c.toNat ≤ r.2

/-- A word that is being read, which may be empty, and the words after it. -/
abbrev Reading := List Char × List (List Char)

namespace Reading

/-- The words read, with the first one among them unless it is empty. -/
def finish (r : Reading) : List (List Char) := if r.1.isEmpty then r.2 else r.1 :: r.2

/-- Puts a character in front: a blank ends the word, any other one extends
    it. -/
def push (c : Char) (r : Reading) : Reading :=
  if isBlank c then ([], r.finish) else (c :: r.1, r.2)

end Reading

/-- A text as the word at its start and the words after that. -/
def reading (cs : List Char) : Reading := cs.foldr Reading.push ([], [])

/-- The words of a text: its longest runs without blanks. -/
def words (cs : List Char) : List (List Char) := (reading cs).finish

@[simp] theorem words_nil : words [] = [] := rfl

theorem words_cons_blank {c : Char} (h : isBlank c = true) (cs : List Char) :
    words (c :: cs) = words cs := by
  simp [words, reading, Reading.push, h, Reading.finish]

theorem reading_append {w : List Char} (hw : ∀ c ∈ w, isBlank c = false) (cs : List Char) :
    reading (w ++ cs) = (w ++ (reading cs).1, (reading cs).2) := by
  induction w with
  | nil => rfl
  | cons c w ih =>
    have := ih fun d hd => hw d (List.mem_cons_of_mem _ hd)
    simp only [reading] at this
    simp [reading, Reading.push, this, hw c List.mem_cons_self]

/-- A text without blanks is one word. -/
theorem words_word {w : List Char} (hne : w ≠ []) (hw : ∀ c ∈ w, isBlank c = false) :
    words w = [w] := by
  have := reading_append hw []
  rw [List.append_nil, show reading [] = ([], []) from rfl, List.append_nil] at this
  simp [words, this, Reading.finish, hne]

/-- A blank ends the word before it. -/
theorem words_append_blank {w : List Char} (hne : w ≠ [])
    (hw : ∀ c ∈ w, isBlank c = false) {b : Char} (hb : isBlank b = true) (cs : List Char) :
    words (w ++ b :: cs) = w :: words cs := by
  rw [words, reading_append hw]
  simp [reading, Reading.push, hb, Reading.finish, hne, words]

/-- Words are not empty and hold no blanks. -/
theorem mem_words {cs w : List Char} (h : w ∈ words cs) :
    w ≠ [] ∧ ∀ c ∈ w, isBlank c = false := by
  have finish {r : Reading} (h₁ : ∀ c ∈ r.1, isBlank c = false)
      (h₂ : ∀ w ∈ r.2, w ≠ [] ∧ ∀ c ∈ w, isBlank c = false) :
      ∀ w ∈ r.finish, w ≠ [] ∧ ∀ c ∈ w, isBlank c = false := by
    intro w hw
    rw [Reading.finish] at hw
    split at hw
    · exact h₂ w hw
    · rename_i hne
      rcases List.mem_cons.1 hw with rfl | hw
      · exact ⟨by simpa using hne, h₁⟩
      · exact h₂ w hw
  -- The word that is still being read may be empty, so it is kept apart.
  have key : (∀ c ∈ (reading cs).1, isBlank c = false) ∧
      ∀ w ∈ (reading cs).2, w ≠ [] ∧ ∀ c ∈ w, isBlank c = false := by
    clear h
    induction cs with
    | nil => simp [reading]
    | cons c cs ih =>
      rw [reading, List.foldr_cons, ← reading, Reading.push]
      split
      · exact ⟨by simp, finish ih.1 ih.2⟩
      · rename_i hc
        refine ⟨fun d hd => ?_, ih.2⟩
        rcases List.mem_cons.1 hd with rfl | hd
        · simpa using hc
        · exact ih.1 d hd
  exact finish key.1 key.2 w h

end Openness.Text
