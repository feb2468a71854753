import Openness.Proofs.Format.LineByLine
import Openness.Proofs.Format.WordLists

/-!
# Reading by words

What is read from a text is known by the words of its lines: they say whether it can be
read strictly, and what is in the set (`parse_eq_ok_iff`). Neither is a matter of their
order or number, so that texts in which the same lists of words occur are read as the same
set (`SameReading.of_sameWords`). Style is no part of what is read (`read_by_words`).
-/

namespace Openness.Format

open TransformSet (follow)

/-! ## Words and lines -/

/-- What words say, if they are well-formed and say something. -/
def directiveOf? (ws : List String) : Option Directive :=
  match Directive.ofWords ws with
  | .ok d => d
  | .error _ => none

/-- A line that is a text with words. -/
theorem words?_eq_some_iff {l : List UInt8} {ws : List String} :
    words? l = some ws ↔
      ws ≠ [] ∧ ∃ text, Text.decode? l = some text ∧ Directive.lineWords text = ws := by
  rw [words?, Option.filter_eq_some_iff, Option.map_eq_some_iff, and_comm]
  simp

/-- What a line says is what its words say. -/
theorem directive?_eq (l : List UInt8) : directive? l = (words? l).bind directiveOf? := by
  refine Option.ext fun d => ?_
  rw [directive?_eq_some_iff, Option.bind_eq_some_iff]
  simp only [words?_eq_some_iff]
  constructor
  · rintro ⟨text, htext, hparse⟩
    refine ⟨Directive.lineWords text, ⟨fun hnil => ?_, text, htext, rfl⟩, ?_⟩
    · rw [Directive.parse, hnil] at hparse
      cases hparse
    · rw [Directive.parse] at hparse
      rw [directiveOf?, hparse]
  · rintro ⟨_, ⟨-, text, htext, rfl⟩, hsay⟩
    refine ⟨text, htext, ?_⟩
    rw [directiveOf?] at hsay
    split at hsay
    · rename_i hwords
      rw [Directive.parse, hwords, hsay]
    · cases hsay

/-- A line that is a text ends the reading if its words are malformed and malformed lines
    are not skipped. -/
theorem endsReading_iff_words {policy : MalformedLines} {l : List UInt8}
    (htext : Text.decode? l ≠ none) :
    EndsReading policy l ↔
      policy = .error ∧ ∃ ws, words? l = some ws ∧ ∃ e, Directive.ofWords ws = .error e := by
  rw [EndsReading, or_iff_right htext]
  refine and_congr_right fun _ => ?_
  simp only [words?_eq_some_iff]
  constructor
  · rintro ⟨text, e, htext, hparse⟩
    refine ⟨Directive.lineWords text, ⟨fun hnil => ?_, text, htext, rfl⟩, e, hparse⟩
    rw [Directive.parse, hnil] at hparse
    cases hparse
  · rintro ⟨_, ⟨-, text, htext, rfl⟩, e, hwords⟩
    exact ⟨text, e, htext, hwords⟩

/-! ## Words and texts -/

/-- A text can be read if the words of each of its lines are well-formed, or malformed
    lines are skipped. What is read then is what the words say. -/
theorem parse_eq_ok_iff {settings : Settings} {text : String} {s : TransformSet} :
    (parse settings text).result = .ok s ↔
      (settings.malformedLines = .error → ∀ ws ∈ wordLists text, ∃ d, Directive.ofWords ws = .ok d) ∧
        s = follow ∅ ((wordLists text).filterMap directiveOf?) := by
  have hends {l : List UInt8} (hl : l ∈ Text.lines (Text.encode text)) :
      EndsReading settings.malformedLines l ↔ settings.malformedLines = .error ∧
        ∃ ws, words? l = some ws ∧ ∃ e, Directive.ofWords ws = .error e :=
    endsReading_iff_words (Text.decode?_ne_none_of_mem_lines hl)
  have hsay : (Text.lines (Text.encode text)).filterMap directive? =
      (wordLists text).filterMap directiveOf? := by
    rw [← filterMap_words?_lines, List.filterMap_filterMap]
    exact List.filterMap_congr fun l _ => directive?_eq l
  rw [parse, read, readLines_eq_ok_iff, hsay, ← filterMap_words?_lines]
  refine and_congr_left fun _ => ?_
  simp only [List.mem_filterMap]
  constructor
  · rintro h hstrict ws ⟨l, hl, hws⟩
    cases hwords : Directive.ofWords ws with
    | ok d => exact ⟨d, rfl⟩
    | error e => exact absurd ((hends hl).2 ⟨hstrict, ws, hws, e, hwords⟩) (h l hl)
  · intro h l hl hend
    obtain ⟨hstrict, ws, hws, e, hwords⟩ := (hends hl).1 hend
    obtain ⟨d, hd⟩ := h hstrict ws ⟨l, hl, hws⟩
    rw [hwords] at hd
    cases hd

/-- Two texts are read alike: each is read strictly as a set exactly if the other one is
    read as the same set, and leniently both are always read as the same set. -/
structure SameReading (names names' : ClassNames) (a b : String) : Prop where
  lenient : ∃ s, (parse ⟨.skip, names⟩ a).result = .ok s ∧ (parse ⟨.skip, names'⟩ b).result = .ok s
  strict : ∀ s, (parse ⟨.error, names⟩ a).result = .ok s ↔ (parse ⟨.error, names'⟩ b).result = .ok s

/-- Texts in which the same lists of words occur are read alike. -/
theorem SameReading.of_sameWords {a b : String} (h : SameWords a b) (names names' : ClassNames) :
    SameReading names names' a b := by
  have hfollow : follow ∅ ((wordLists a).filterMap directiveOf?) =
      follow ∅ ((wordLists b).filterMap directiveOf?) :=
    TransformSet.follow_congr _ fun d => by
      simp only [List.mem_filterMap]
      exact exists_congr fun ws => and_congr_left fun _ => h ws
  constructor
  · exact ⟨_, parse_eq_ok_iff.2 ⟨nofun, rfl⟩, parse_eq_ok_iff.2 ⟨nofun, hfollow⟩⟩
  · intro s
    rw [parse_eq_ok_iff, parse_eq_ok_iff, hfollow]
    exact and_congr_left fun _ => imp_congr_right fun _ => forall_congr' fun ws =>
      imp_congr_left (h ws)

/-- Texts are read alike if the same lists of words occur in them. So style is no part of
    what is read, and neither are the line breaks. -/
theorem read_by_words (names names' : ClassNames) :
    (∀ a b, SameWords a b → SameReading names names' a b) ∧
      ∀ ls ls', Relation.EqvGen Restyle ls ls' → (∀ l ∈ ls ++ ls', '\n' ∉ l) →
        ∀ br ∈ lineBreaks, ∀ br' ∈ lineBreaks,
          SameReading names names' (ofLines br ls) (ofLines br' ls') := by
  refine ⟨fun a b h => .of_sameWords h names names', fun ls ls' h hlines br hbr br' hbr' => ?_⟩
  rw [List.forall_mem_append] at hlines
  exact .of_sameWords (.of_restyle h hlines.1 hlines.2 hbr hbr') names names'

/-- A line for a field and one for a method. -/
def plainLines : List (List Char) := ["public a.B x".toList, "+f a/B run()V".toList]

/-- The same lines the other way round, the first one with a tab and a comment. -/
def styledLines : List (List Char) := ["+f\ta/B run()V# note".toList, "public a.B x".toList]

/-- The lines again, with more blanks, a blank line and a line that comes twice. -/
def styledText : String := "\r\n public  a.B x #\n+f a/B run()V\r\npublic a.B x"

/-- Both are read like the two lines. -/
theorem styled_read_alike :
    Relation.EqvGen Restyle plainLines styledLines ∧
      SameReading .internal .binary (ofLines ['\n'] plainLines) (ofLines ['\r', '\n'] styledLines) ∧
      SameWords (ofLines ['\n'] plainLines) styledText ∧
      SameReading .internal .internal (ofLines ['\n'] plainLines) styledText := by
  have hblank : ∀ b ∈ [' '], Text.isBlank b = true := List.forall_mem_singleton.2 (by decide)
  have htab : ∀ b ∈ ['\t'], Text.isBlank b = true := List.forall_mem_singleton.2 (by decide)
  have hrestyle : Relation.EqvGen Restyle plainLines styledLines :=
    .trans _ _ _ (.rel _ _ (.permute (.swap "+f a/B run()V".toList _ _)))
      (.trans _ _ _
        (.rel _ _ (@Restyle.space "+f".toList "a/B run()V".toList [' '] ['\t'] ["public a.B x".toList]
          (List.cons_ne_nil _ _) hblank (List.cons_ne_nil _ _) htab))
        (.rel _ _ (@Restyle.comment "+f\ta/B run()V".toList " note".toList _)))
  have hwords : SameWords (ofLines ['\n'] plainLines) styledText := by decide +kernel
  exact ⟨hrestyle,
    (read_by_words _ _).2 _ _ hrestyle (by decide) _ (by decide) _ (by decide), hwords,
    (read_by_words _ _).1 _ _ hwords⟩

end Openness.Format
