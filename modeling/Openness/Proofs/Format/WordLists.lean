import Mathlib.Data.List.Basic
import Mathlib.Logic.Relation
import Openness.Proofs.Format.TerminatedLines
import Openness.Proofs.Format.Words

/-!
# The words in a text

What newlines separate in a text are lines, each with its words (`Format.wordLists`). The
reader finds the lines in the bytes of the text, takes a carriage return off some of them,
and does not see what follows the last newline if that is empty. The words are the same
(`Format.filterMap_words?_lines`), since a carriage return is a blank and an empty line has
no words.

Much of a text does not show in its words. Other blanks, comments, lines that hold nothing
else, and the order and number of the lines are a matter of style (`Format.Restyle`), and
what is restyled has the same words (`Format.SameWords.of_restyle`).
-/

namespace Openness

namespace Text

/-! ## Lines of a text -/

/-- A carriage return is dropped from the bytes of a line as it is from the line. -/
theorem dropReturn_encode (l : List Char) :
    dropReturn (encode (String.ofList l)) =
      encode (String.ofList (if l.getLast? = some '\r' then l.dropLast else l)) := by
  obtain rfl | ⟨l, c, rfl⟩ := l.eq_nil_or_concat
  · rfl
  rw [List.concat_eq_append, List.getLast?_concat, encode_append]
  by_cases hc : c = '\r'
  · subst hc
    have hreturn : encode (String.ofList ['\r']) = [carriageReturn] := by decide
    rw [hreturn, dropReturn, List.getLast?_concat, if_pos rfl, if_pos rfl, List.dropLast_concat,
      List.dropLast_concat]
  · -- The last byte is one of the last character, and that has no such byte.
    have hne : encode (String.ofList [c]) ≠ [] := by
      rw [encode_ofList, List.flatMap_singleton]
      exact String.utf8EncodeChar_ne_nil
    rw [dropReturn, List.getLast?_append_of_ne_nil _ hne, if_neg, if_neg (by simpa using hc),
      encode_append]
    intro hlast
    have hmem := carriageReturn_mem_encode_iff.1 (List.mem_of_getLast? hlast)
    exact hc (List.mem_singleton.1 hmem).symm

/-- A text without a newline is one line. -/
theorem splitOn_of_not_mem {l : List Char} (hl : '\n' ∉ l) : l.splitOn '\n' = [l] :=
  List.splitOnP_eq_singleton fun c hc => by simpa using fun e : c = '\n' => hl (e ▸ hc)

/-- A newline ends a line of a text, whatever follows. -/
theorem splitOn_append_newline {l : List Char} (hl : '\n' ∉ l) (rest : List Char) :
    (l ++ '\n' :: rest).splitOn '\n' = l :: rest.splitOn '\n' := by
  rw [List.splitOn, List.splitOnP_append_cons _ _ (by decide), ← List.splitOn,
    splitOn_of_not_mem hl]
  rfl

/-- What is found in the lines of a text is found in what its newlines separate, if nothing
    is found in an empty line and a carriage return at the end makes no difference. -/
theorem filterMap_lines_encode {α : Type} {f : List UInt8 → Option α} (hnil : f [] = none)
    (hreturn : ∀ l, f (encode (String.ofList (l ++ ['\r']))) = f (encode (String.ofList l)))
    (cs : List Char) :
    (lines (encode (String.ofList cs))).filterMap f =
      (cs.splitOn '\n').filterMap fun l => f (encode (String.ofList l)) := by
  by_cases h : '\n' ∈ cs
  · obtain ⟨l, rest, hcs, hl⟩ := List.eq_append_cons_of_mem h
    have hshorter : rest.length < cs.length := by
      rw [hcs, List.length_append, List.length_cons]
      omega
    have hencode : encode (String.ofList (l ++ '\n' :: rest)) =
        encode (String.ofList l) ++ newline :: encode (String.ofList rest) := by
      rw [← List.singleton_append, encode_append, encode_append]
      rfl
    have hline : f (dropReturn (encode (String.ofList l))) = f (encode (String.ofList l)) := by
      rw [dropReturn_encode]
      split
      · rename_i hlast
        obtain ⟨l, rfl⟩ := List.getLast?_eq_some_iff.1 hlast
        rw [List.dropLast_concat, hreturn]
      · rfl
    rw [hcs, splitOn_append_newline hl, hencode,
      lines_append_newline (newline_mem_encode_iff.not.2 hl), List.filterMap_cons,
      List.filterMap_cons, hline, filterMap_lines_encode hnil hreturn rest]
  · rw [splitOn_of_not_mem h, lines_of_not_mem (newline_mem_encode_iff.not.2 h)]
    split
    · rename_i hempty
      rw [List.filterMap_nil, List.filterMap_cons, List.filterMap_nil, hempty, hnil]
    · rfl
termination_by cs.length

/-- The lines of a text are texts. -/
theorem decode?_ne_none_of_mem_lines {text : String} {l : List UInt8}
    (hl : l ∈ lines (encode text)) : decode? l ≠ none := by
  -- Nothing is found in the lines by looking for what is no text.
  have hfound : (lines (encode text)).filterMap
      (fun l => if decode? l = none then some l else none) = [] := by
    rw [← String.ofList_toList (s := text), filterMap_lines_encode]
    · simp [decode?_encode]
    · rw [if_neg]
      rw [show decode? [] = some "" from decode?_encode ""]
      exact Option.some_ne_none _
    · simp [decode?_encode]
  intro hnone
  have := List.filterMap_eq_nil_iff.1 hfound l hl
  rw [if_pos hnone] at this
  cases this

end Text

namespace Format

open Directive (lineWords)

/-! ## Words of a line -/

/-- A line that is put together of two parts goes on in the second one up to a `#` if there
    is none in the first. -/
theorem takeWhile_ne_append (l l' : List Char) :
    (l ++ l').takeWhile (· != '#') =
      l.takeWhile (· != '#') ++ if '#' ∈ l then [] else l'.takeWhile (· != '#') := by
  split
  · rename_i h
    obtain ⟨before, after, rfl, hbefore⟩ := List.eq_append_cons_of_mem h
    rw [List.append_assoc, List.cons_append, Text.takeWhile_append_separator hbefore,
      Text.takeWhile_append_separator hbefore, List.append_nil]
  · rename_i h
    rw [List.takeWhile_append_of_pos (Text.bne_of_not_mem h), Text.takeWhile_of_not_mem h]

/-- What stands behind a `#` is no word. -/
theorem lineWords_append_comment (l cs : List Char) :
    lineWords (String.ofList (l ++ '#' :: cs)) = lineWords (String.ofList l) := by
  simp [lineWords, takeWhile_ne_append]

/-- Blanks part the words before them from those after them, unless they stand in a
    comment. -/
theorem lineWords_append_blanks {bs : List Char} (hne : bs ≠ [])
    (hbs : ∀ b ∈ bs, Text.isBlank b = true) (l l' : List Char) :
    lineWords (String.ofList (l ++ bs ++ l')) = lineWords (String.ofList l) ++
      if '#' ∈ l then [] else lineWords (String.ofList l') := by
  have hblanks : '#' ∉ bs := fun h => absurd (hbs _ h) (by decide)
  have hkept : bs.takeWhile (· != '#') = bs := Text.takeWhile_of_not_mem hblanks
  simp only [lineWords, String.toList_ofList]
  rw [List.append_assoc, takeWhile_ne_append, takeWhile_ne_append, if_neg hblanks, hkept]
  split
  · rw [List.append_nil, List.append_nil]
  · obtain ⟨b, bs, rfl⟩ := List.exists_cons_of_ne_nil hne
    obtain ⟨hb, hbs⟩ := List.forall_mem_cons.1 hbs
    rw [List.cons_append, Text.words_append_cons_blank hb, Text.words_blanks_append hbs,
      List.map_append]

/-- Blanks at the end of a line leave its words. -/
theorem lineWords_append_of_blanks {bs : List Char} (hbs : ∀ b ∈ bs, Text.isBlank b = true)
    (l : List Char) : lineWords (String.ofList (l ++ bs)) = lineWords (String.ofList l) := by
  by_cases hne : bs = []
  · rw [hne, List.append_nil]
  · have h := lineWords_append_blanks hne hbs l []
    rw [List.append_nil] at h
    rw [h]
    split <;> exact List.append_nil _

/-- The words of a line, if it is a text and has any. -/
def words? (line : List UInt8) : Option (List String) :=
  ((Text.decode? line).map lineWords).filter (· ≠ [])

theorem words?_encode (text : String) :
    words? (Text.encode text) = (some (lineWords text)).filter (· ≠ []) := by
  rw [words?, Text.decode?_encode, Option.map_some]

/-! ## Words of a text -/

/-- The words of each of some lines, but for those that have none. -/
def wordListsOf (ls : List (List Char)) : List (List String) :=
  (ls.map fun l => lineWords (String.ofList l)).filter (· ≠ [])

/-- The words of each line of a text, but for those that have none. -/
def wordLists (text : String) : List (List String) := wordListsOf (text.toList.splitOn '\n')

/-- The lines that the reader finds in a text have the words of the text. -/
theorem filterMap_words?_lines (text : String) :
    (Text.lines (Text.encode text)).filterMap words? = wordLists text := by
  have hreturn (l : List Char) : words? (Text.encode (String.ofList (l ++ ['\r']))) =
      words? (Text.encode (String.ofList l)) := by
    rw [words?_encode, words?_encode,
      lineWords_append_of_blanks (List.forall_mem_singleton.2 (by decide))]
  conv_lhs => rw [← String.ofList_toList (s := text)]
  rw [Text.filterMap_lines_encode (words?_encode "") hreturn, wordLists, wordListsOf,
    ← List.filterMap_eq_filter, List.filterMap_map]
  simp only [words?_encode]
  rfl

theorem mem_wordListsOf {ls : List (List Char)} {ws : List String} :
    ws ∈ wordListsOf ls ↔ ws ≠ [] ∧ ∃ l ∈ ls, lineWords (String.ofList l) = ws := by
  simp [wordListsOf, and_comm]

theorem wordListsOf_cons (l : List Char) (ls : List (List Char)) :
    wordListsOf (l :: ls) = wordListsOf [l] ++ wordListsOf ls := by
  rw [wordListsOf, ← List.singleton_append, List.map_append, List.filter_append]
  rfl

theorem wordListsOf_singleton_congr {l l' : List Char}
    (h : lineWords (String.ofList l) = lineWords (String.ofList l')) :
    wordListsOf [l] = wordListsOf [l'] := by
  rw [wordListsOf, List.map_singleton, h]
  rfl

/-! ## Matters of style -/

/-- The same lists of words occur in two texts, in whatever order and number. -/
def SameWords (a b : String) : Prop := ∀ ws, ws ∈ wordLists a ↔ ws ∈ wordLists b

instance (a b : String) : Decidable (SameWords a b) :=
  decidable_of_iff
    ((∀ ws ∈ wordLists a, ws ∈ wordLists b) ∧ ∀ ws ∈ wordLists b, ws ∈ wordLists a)
    ⟨fun h ws => ⟨h.1 ws, h.2 ws⟩, fun h => ⟨fun ws => (h ws).1, fun ws => (h ws).2⟩⟩

/-- A change to some lines that is a matter of style. -/
inductive Restyle : List (List Char) → List (List Char) → Prop
  /-- The lines come in another order. -/
  | permute {ls ls' : List (List Char)} : ls.Perm ls' → Restyle ls ls'
  /-- A line comes once more. -/
  | again {l : List Char} {ls : List (List Char)} : l ∈ ls → Restyle ls (l :: ls)
  /-- A line without anything but blanks is put in. -/
  | blank {bs : List Char} {ls : List (List Char)} :
      (∀ b ∈ bs, Text.isBlank b = true) → Restyle ls (bs :: ls)
  /-- A line, which may be blank, gets a comment at its end. -/
  | comment {l cs : List Char} {ls : List (List Char)} : Restyle (l :: ls) ((l ++ '#' :: cs) :: ls)
  /-- Within a line, blanks take the place of others. -/
  | space {l l' bs bs' : List Char} {ls : List (List Char)} :
      bs ≠ [] → (∀ b ∈ bs, Text.isBlank b = true) → bs' ≠ [] → (∀ b ∈ bs', Text.isBlank b = true) →
        Restyle ((l ++ bs ++ l') :: ls) ((l ++ bs' ++ l') :: ls)
  /-- A line gets blanks in front. -/
  | indent {l bs : List Char} {ls : List (List Char)} :
      (∀ b ∈ bs, Text.isBlank b = true) → Restyle (l :: ls) ((bs ++ l) :: ls)
  /-- A line gets blanks at its end, such as a carriage return. -/
  | trail {l bs : List Char} {ls : List (List Char)} :
      (∀ b ∈ bs, Text.isBlank b = true) → Restyle (l :: ls) ((l ++ bs) :: ls)

/-- A matter of style does not show in the words. -/
theorem Restyle.mem_wordListsOf_iff {ls ls' : List (List Char)} (h : Restyle ls ls')
    (ws : List String) : ws ∈ wordListsOf ls ↔ ws ∈ wordListsOf ls' := by
  -- All but the first two changes are to the first line.
  have first {l l' : List Char} {ls : List (List Char)}
      (hwords : lineWords (String.ofList l) = lineWords (String.ofList l')) :
      ws ∈ wordListsOf (l :: ls) ↔ ws ∈ wordListsOf (l' :: ls) := by
    rw [wordListsOf_cons, wordListsOf_singleton_congr hwords, ← wordListsOf_cons]
  cases h with
  | permute hperm => simp only [mem_wordListsOf, hperm.mem_iff]
  | again hl =>
    simp only [mem_wordListsOf, List.exists_mem_cons_iff]
    exact and_congr_right fun _ => (or_iff_right_of_imp fun h => ⟨_, hl, h⟩).symm
  | @blank bs _ hbs =>
    have hnone : wordListsOf [bs] = wordListsOf [[]] :=
      wordListsOf_singleton_congr (lineWords_append_of_blanks hbs [])
    rw [wordListsOf_cons, hnone]
    rfl
  | comment => exact first (lineWords_append_comment ..).symm
  | space hne hbs hne' hbs' =>
    exact first (by rw [lineWords_append_blanks hne hbs, lineWords_append_blanks hne' hbs'])
  | @indent l bs ls hbs =>
    refine first ?_
    by_cases hne : bs = []
    · rw [hne, List.nil_append]
    · exact (lineWords_append_blanks hne hbs [] l).symm
  | trail hbs => exact first (lineWords_append_of_blanks hbs _).symm

/-- What may stand between two lines. -/
def lineBreaks : List (List Char) := [['\n'], ['\r', '\n']]

/-- The text that lines make with line breaks between them. -/
def ofLines (br : List Char) (ls : List (List Char)) : String := String.ofList (br.intercalate ls)

/-- The words of lines are the words of the text that they make, with whichever line
    breaks. -/
theorem wordLists_ofLines {br : List Char} (hbr : br ∈ lineBreaks) {ls : List (List Char)}
    (hls : ∀ l ∈ ls, '\n' ∉ l) : wordLists (ofLines br ls) = wordListsOf ls := by
  obtain ⟨bs, rfl, hblank, hnewline⟩ : ∃ bs, br = bs ++ ['\n'] ∧
      (∀ b ∈ bs, Text.isBlank b = true) ∧ '\n' ∉ bs := by
    simp only [lineBreaks, List.mem_cons, List.not_mem_nil, or_false] at hbr
    rcases hbr with rfl | rfl
    · exact ⟨[], rfl, List.forall_mem_nil _, List.not_mem_nil⟩
    · exact ⟨['\r'], rfl, List.forall_mem_singleton.2 (by decide), by decide⟩
  rw [wordLists, ofLines, String.toList_ofList]
  induction ls with
  | nil => rfl
  | cons l ls ih =>
    obtain ⟨hl, hls⟩ := List.forall_mem_cons.1 hls
    rcases ls with _ | ⟨l', ls⟩
    · rw [List.intercalate_singleton, Text.splitOn_of_not_mem hl]
    · have hend : (bs ++ ['\n']).intercalate (l :: l' :: ls) =
          (l ++ bs) ++ '\n' :: (bs ++ ['\n']).intercalate (l' :: ls) := by
        rw [List.intercalate_cons_cons]
        simp only [List.append_assoc, List.singleton_append]
      have hl' : '\n' ∉ l ++ bs := fun h => (List.mem_append.1 h).elim hl hnewline
      rw [hend, Text.splitOn_append_newline hl', wordListsOf_cons, ih hls,
        wordListsOf_singleton_congr (lineWords_append_of_blanks hblank l), ← wordListsOf_cons]

/-- What is restyled has the same words. -/
theorem SameWords.of_restyle {ls ls' : List (List Char)} (h : Relation.EqvGen Restyle ls ls')
    (hls : ∀ l ∈ ls, '\n' ∉ l) (hls' : ∀ l ∈ ls', '\n' ∉ l) {br br' : List Char}
    (hbr : br ∈ lineBreaks) (hbr' : br' ∈ lineBreaks) :
    SameWords (ofLines br ls) (ofLines br' ls') := by
  intro ws
  rw [wordLists_ofLines hbr hls, wordLists_ofLines hbr' hls']
  clear hls hls'
  induction h with
  | rel _ _ h => exact h.mem_wordListsOf_iff ws
  | refl _ => rfl
  | symm _ _ _ ih => exact ih.symm
  | trans _ _ _ _ _ ih ih' => exact ih.trans ih'

end Format

end Openness
