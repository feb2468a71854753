import Mathlib.Data.List.TakeWhile
import Openness.Format.Directive

/-!
# Words of a line

A line is known by its words (`Directive.lineWords`): the text before the first
`#`, cut at its blanks. So words make a line that consists of just these words,
whenever they hold neither a blank nor a `#` and are not empty (`IsWord`), and a
line has no other words than such.

* `Text.flatten_words`: words hold all characters of a text but the blanks;
* `Text.words_append_cons_blank`: a blank parts words from one another, and does
  nothing else;
* `Text.words_eq_iff`: so the words of a text are the only ones that it is parted into;
* `Directive.isWord_of_mem_lineWords`: the words of a line are words;
* `Directive.lineWords_intercalate`: words with a space between them make a line
  of these words.
-/

namespace Openness

namespace Text

/-- The words of a text hold all its characters but the blanks. -/
theorem flatten_words (cs : List Char) : (words cs).flatten = cs.filter (!isBlank ·) := by
  -- The word at the start counts even while it is still being read.
  have finish (r : Reading) : r.finish.flatten = r.1 ++ r.2.flatten := by
    rw [Reading.finish]
    split
    · rename_i h
      rw [List.isEmpty_iff.1 h, List.nil_append]
    · rfl
  rw [words, finish]
  induction cs with
  | nil => rfl
  | cons c cs ih =>
    rw [reading, List.foldr_cons, ← reading, Reading.push]
    split
    · rename_i h
      rw [finish, List.nil_append, ih, List.filter_cons_of_neg (by simpa using h)]
    · rename_i h
      rw [List.cons_append, ih, List.filter_cons_of_pos (by simpa using h)]

/-- A blank parts the words before it from those after it. -/
theorem words_append_cons_blank {b : Char} (hb : isBlank b = true) (cs ds : List Char) :
    words (cs ++ b :: ds) = words cs ++ words ds := by
  have finish (r : Reading) (ws : List (List Char)) :
      Reading.finish (r.1, r.2 ++ ws) = r.finish ++ ws := by
    rw [Reading.finish, Reading.finish]
    split <;> rfl
  -- The word at the start is that of `cs`, also while it is still being read.
  have key : reading (cs ++ b :: ds) = ((reading cs).1, (reading cs).2 ++ words ds) := by
    induction cs with
    | nil => simp [reading, Reading.push, hb, words]
    | cons c cs ih =>
      have hcons (es : List Char) : reading (c :: es) = (reading es).push c := rfl
      rw [List.cons_append, hcons, ih, hcons, Reading.push, Reading.push]
      split
      · rw [finish]
      · rfl
  rw [words, key, finish, ← words]

/-- Blanks in front of a text leave its words. -/
theorem words_blanks_append {bs : List Char} (hbs : ∀ b ∈ bs, isBlank b = true)
    (cs : List Char) : words (bs ++ cs) = words cs := by
  induction bs with
  | nil => rfl
  | cons b bs ih =>
    obtain ⟨hb, hbs⟩ := List.forall_mem_cons.1 hbs
    rw [List.cons_append, words_cons_blank hb, ih hbs]

theorem mem_of_mem_words {cs w : List Char} (h : w ∈ words cs) {c : Char} (hc : c ∈ w) :
    c ∈ cs := by
  have : c ∈ (words cs).flatten := List.mem_flatten_of_mem h hc
  rw [flatten_words] at this
  exact (List.mem_filter.1 this).1

/-- Words with a space between them are the words of the whole. -/
theorem words_intercalate {ws : List (List Char)}
    (h : ∀ w ∈ ws, w ≠ [] ∧ ∀ c ∈ w, isBlank c = false) : words ([' '].intercalate ws) = ws := by
  induction ws with
  | nil => rfl
  | cons w ws ih =>
    obtain ⟨⟨hne, hw⟩, h⟩ := List.forall_mem_cons.1 h
    rcases ws with _ | ⟨v, ws⟩
    · rw [List.intercalate_singleton, words_word hne hw]
    · rw [List.intercalate_cons_cons, List.append_assoc, List.singleton_append,
        words_append_blank hne hw (by decide), ih h]

theorem eq_space_or_mem_of_mem_intercalate {ws : List (List Char)} {c : Char}
    (h : c ∈ [' '].intercalate ws) : c = ' ' ∨ ∃ w ∈ ws, c ∈ w := by
  induction ws with
  | nil => exact absurd h List.not_mem_nil
  | cons w ws ih =>
    rcases ws with _ | ⟨v, ws⟩
    · rw [List.intercalate_singleton] at h
      exact .inr ⟨w, List.mem_cons_self, h⟩
    · rw [List.intercalate_cons_cons, List.append_assoc, List.mem_append, List.mem_append,
        List.mem_singleton] at h
      rcases h with h | h | h
      · exact .inr ⟨w, List.mem_cons_self, h⟩
      · exact .inl h
      · exact (ih h).imp_right fun ⟨u, hu, hc⟩ => ⟨u, List.mem_cons_of_mem _ hu, hc⟩

/-! ## Texts made of words -/

/-- A text is made of words with blanks between them, and perhaps blanks around. -/
inductive Parted : List Char → List (List Char) → Prop
  | nil : Parted [] []
  | blank {b : Char} {cs : List Char} {ws : List (List Char)} :
      isBlank b = true → Parted cs ws → Parted (b :: cs) ws
  | word {w cs : List Char} {ws : List (List Char)} :
      w ≠ [] → (∀ c ∈ w, isBlank c = false) → (∀ c ∈ cs.head?, isBlank c = true) → Parted cs ws →
        Parted (w ++ cs) (w :: ws)

/-- A word ends where the text does or a blank follows. -/
theorem words_append_of_head? {w cs : List Char} (hne : w ≠ [])
    (hw : ∀ c ∈ w, isBlank c = false) (hcs : ∀ c ∈ cs.head?, isBlank c = true) :
    words (w ++ cs) = w :: words cs := by
  rcases cs with _ | ⟨b, cs⟩
  · rw [List.append_nil, words_word hne hw, words_nil]
  · have hb : isBlank b = true := hcs b rfl
    rw [words_append_blank hne hw hb, words_cons_blank hb]

/-- A text is made of the words that are found in it. -/
theorem parted_words (cs : List Char) : Parted cs (words cs) := by
  -- By induction on the length, as a word takes away more than one character.
  induction cs using (measure List.length).wf.induction with
  | h cs ih =>
    rcases cs with _ | ⟨c, cs⟩
    · exact .nil
    cases hc : isBlank c with
    | true =>
      rw [words_cons_blank hc]
      exact .blank hc (ih cs (Nat.lt_succ_self _))
    | false =>
      -- The word at the start goes as far as there are no blanks.
      have hsplit : c :: cs.takeWhile (!isBlank ·) ++ cs.dropWhile (!isBlank ·) = c :: cs := by
        rw [List.cons_append, List.takeWhile_append_dropWhile]
      have hw : ∀ d ∈ c :: cs.takeWhile (!isBlank ·), isBlank d = false := by
        rw [List.forall_mem_cons]
        exact ⟨hc, fun d hd => by simpa using List.mem_takeWhile_imp hd⟩
      have hrest : ∀ d ∈ (cs.dropWhile (!isBlank ·)).head?, isBlank d = true := by
        intro d hd
        have := List.head?_dropWhile_not (!isBlank ·) cs
        rw [hd] at this
        simpa using this
      have hshorter : (cs.dropWhile (!isBlank ·)).length < (c :: cs).length :=
        Nat.lt_succ_of_le (List.length_dropWhile_le _ cs)
      rw [← hsplit, words_append_of_head? (List.cons_ne_nil _ _) hw hrest]
      exact .word (List.cons_ne_nil _ _) hw hrest (ih _ hshorter)

/-- The words found in a text are those that it is made of. -/
theorem words_eq_iff {cs : List Char} {ws : List (List Char)} : words cs = ws ↔ Parted cs ws := by
  constructor
  · rintro rfl
    exact parted_words cs
  · intro h
    induction h with
    | nil => rfl
    | blank hb _ ih => rw [words_cons_blank hb, ih]
    | word hne hw hcs _ ih => rw [words_append_of_head? hne hw hcs, ih]

end Text

/-! ## Words of a line -/

namespace Format

/-- What can stand in a line as one word. -/
structure IsWord (text : String) : Prop where
  nonempty : text ≠ ""
  no_blank : ∀ c ∈ text.toList, Text.isBlank c = false
  no_comment : '#' ∉ text.toList

theorem isWord_iff {text : String} :
    IsWord text ↔
      (!text.toList.isEmpty && text.toList.all fun c => !Text.isBlank c && c != '#') = true := by
  simp only [Bool.and_eq_true, Bool.not_eq_true', ← Bool.not_eq_true, List.isEmpty_iff,
    List.all_eq_true, String.toList_eq_nil_iff]
  constructor
  · intro h
    refine ⟨h.nonempty, fun c hc => ⟨by simp [h.no_blank c hc], ?_⟩⟩
    simpa using fun e : c = '#' => h.no_comment (e ▸ hc)
  · rintro ⟨hne, h⟩
    exact ⟨hne, fun c hc => by simpa using (h c hc).1, fun hc => by simpa using (h _ hc).2⟩

instance (text : String) : Decidable (IsWord text) := decidable_of_iff _ isWord_iff.symm

namespace Directive

/-- The words of a line are words. -/
theorem isWord_of_mem_lineWords {line w : String} (h : w ∈ lineWords line) : IsWord w := by
  obtain ⟨cs, hcs, rfl⟩ := List.mem_map.1 h
  obtain ⟨hne, hblank⟩ := Text.mem_words hcs
  refine ⟨by simpa using hne, by simpa using hblank, ?_⟩
  rw [String.toList_ofList]
  intro hc
  simpa using List.mem_takeWhile_imp (Text.mem_of_mem_words hcs hc)

/-- Words with a space between them are the words of the line that they make. -/
theorem lineWords_intercalate {ws : List String} (h : ∀ w ∈ ws, IsWord w) :
    lineWords (String.ofList ([' '].intercalate (ws.map String.toList))) = ws := by
  have hcomment : ∀ c ∈ [' '].intercalate (ws.map String.toList), (c != '#') = true := by
    intro c hc
    rcases Text.eq_space_or_mem_of_mem_intercalate hc with rfl | ⟨w, hw, hc⟩
    · decide
    · obtain ⟨v, hv, rfl⟩ := List.mem_map.1 hw
      simpa using fun e : c = '#' => (h v hv).no_comment (e ▸ hc)
  have hwords : ∀ w ∈ ws.map String.toList, w ≠ [] ∧ ∀ c ∈ w, Text.isBlank c = false := by
    intro w hw
    obtain ⟨v, hv, rfl⟩ := List.mem_map.1 hw
    exact ⟨by simpa using (h v hv).nonempty, (h v hv).no_blank⟩
  rw [lineWords, String.toList_ofList, List.takeWhile_eq_self_iff.2 hcomment,
    Text.words_intercalate hwords, List.map_map]
  simp

end Directive

end Format

end Openness
