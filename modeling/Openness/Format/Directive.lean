import Openness.Format.Settings
import Openness.TransformSet

/-!
# Directives

A directive is what a line of the text format says: a transform, the class that
it is for, and the slot of the class (`Directive`). A line is a sequence of words
up to the first `#`:

* a modifier: an access keyword, a mark of finality, or a keyword with a mark
  right behind it;
* after a keyword without a mark, perhaps a mark as a word of its own;
* the name of the class;
* nothing for the class itself, `*` for all fields, `*()` for all methods, a
  signature for a method, or else the name of a field.

A modifier cannot stand for a class name, nor a mark for a field name.

* `Directive.parse`: the directive of a line, or what is wrong with the line;
* `Transform.ofModifier?_eq_some_iff`: reading a modifier undoes writing it.
-/

namespace Openness

/-! ## Modifiers -/

/-- The keyword of an access level. -/
def Access.keyword : Access → String
  | keep => ""
  | toPrivate => "private"
  | toPackage => "default"
  | toProtected => "protected"
  | toPublic => "public"

/-- The mark of a change of the final flag. -/
def Finality.mark : Finality → String
  | keep => ""
  | add => "+f"
  | remove => "-f"

namespace Transform

/-- A transform as one word. -/
def modifier (t : Transform) : String := t.access.keyword ++ t.finality.mark

/-- All transforms that ask for something. -/
def all : List Transform :=
  (Access.all.flatMap fun a => Finality.all.map fun f => ⟨a, f⟩).filter (!·.isNeutral)

/-- The transform that a word stands for. -/
def ofModifier? (word : String) : Option Transform := all.find? (·.modifier = word)

theorem mem_all {t : Transform} : t ∈ all ↔ t ≠ neutral := by
  rcases t with ⟨a, f⟩
  cases a <;> cases f <;> decide

/-- No two transforms have the same word. -/
theorem ofModifier?_modifier {t : Transform} (h : t ≠ neutral) :
    ofModifier? t.modifier = some t := by
  rcases t with ⟨a, f⟩
  revert h
  cases a <;> cases f <;> decide

/-- A word stands for a transform exactly if it is the word of that transform and
    asks for something. -/
theorem ofModifier?_eq_some_iff {word : String} {t : Transform} :
    ofModifier? word = some t ↔ t.modifier = word ∧ t ≠ neutral := by
  constructor
  · intro h
    exact ⟨by simpa using List.find?_some h, mem_all.1 (List.mem_of_find?_eq_some h)⟩
  · rintro ⟨rfl, h⟩
    exact ofModifier?_modifier h

end Transform

/-- The change of the final flag that a word stands for on its own. -/
def Finality.ofMark? (word : String) : Option Finality :=
  [add, remove].find? (·.mark = word)

theorem Finality.ofMark?_eq_some_iff {word : String} {f : Finality} :
    ofMark? word = some f ↔ f.mark = word ∧ f ≠ keep := by
  constructor
  · intro h
    refine ⟨by simpa using List.find?_some h, ?_⟩
    have := List.mem_of_find?_eq_some h
    rintro rfl
    simp at this
  · rintro ⟨rfl, h⟩
    cases f with
    | keep => exact absurd rfl h
    | add => rfl
    | remove => rfl

namespace Format

/-! ## Errors -/

/-- What is wrong with a line. -/
inductive LineError where
  /-- The line starts with another word than a modifier. -/
  | noModifier (word : String)
  /-- Nothing follows the modifier. -/
  | noClass
  /-- A modifier stands where the class should be. -/
  | modifierForClass (word : String)
  /-- The word for the member is neither a name nor a signature. -/
  | badMember (word : String)
  /-- The word for the member looks like a signature and is none. -/
  | badMethod (cause : Refusal)
  /-- A word follows the member. -/
  | trailing (word : String)
  deriving DecidableEq, Repr

/-- What is said about a line. -/
def LineError.message : LineError → String
  | noModifier w => "expected an access modifier or finality change, found `" ++ w ++ "`"
  | noClass => "missing class name"
  | modifierForClass w => "unexpected modifier `" ++ w ++ "`"
  | badMember w => "invalid member name `" ++ w ++ "`"
  | badMethod cause => cause.message
  | trailing w => "unexpected trailing token `" ++ w ++ "`"

/-! ## Directives -/

/-- What a line says. -/
structure Directive where
  /-- What is asked. -/
  transform : Transform
  /-- The internal name of the class it is asked of. -/
  className : String
  /-- The slot of the class it is asked of. -/
  slot : Slot
  deriving DecidableEq, Repr

/-- The slot that the word after the class stands for. -/
def slotOfWord (word : String) : Except LineError Slot :=
  if word = "*" then .ok .allFields
  else if word = "*()" then .ok .allMethods
  else if '(' ∈ word.toList then
    match Signature.parse word with
    | .ok m => .ok (.method m)
    | .error cause => .error (.badMethod cause)
  else if ')' ∈ word.toList || (Finality.ofMark? word).isSome then .error (.badMember word)
  else .ok (.field word)

/-- The slot that the words after the class stand for. -/
def slotOfWords : List String → Except LineError Slot
  | [] => .ok .own
  | w :: ws =>
    match slotOfWord w, ws with
    | .error e, _ => .error e
    | .ok slot, [] => .ok slot
    | .ok _, extra :: _ => .error (.trailing extra)

/-- A mark of finality that stands on its own behind a modifier without one is
    taken along with it. -/
def takeMark (t : Transform) : List String → Transform × List String
  | [] => (t, [])
  | w :: ws =>
    match t.finality, Finality.ofMark? w with
    | .keep, some f => ({ t with finality := f }, ws)
    | _, _ => (t, w :: ws)

namespace Directive

/-- The directive that words stand for; no words are none. -/
def ofWords : List String → Except LineError (Option Directive)
  | [] => .ok none
  | w :: ws =>
    match Transform.ofModifier? w with
    | none => .error (.noModifier w)
    | some t =>
      match takeMark t ws with
      | (_, []) => .error .noClass
      | (t, c :: ws) =>
        if (Transform.ofModifier? c).isSome then .error (.modifierForClass c)
        else
          match slotOfWords ws with
          | .error e => .error e
          | .ok slot => .ok (some ⟨t, String.ofList (internalName c.toList), slot⟩)

/-- The words of a line: those before the first `#`. -/
def lineWords (line : String) : List String :=
  (Text.words (line.toList.takeWhile (· != '#'))).map String.ofList

/-- The directive of a line, if it has one. -/
def parse (line : String) : Except LineError (Option Directive) := ofWords (lineWords line)

/-- Does what a directive says. -/
def apply (d : Directive) (s : TransformSet) : TransformSet := s.join d.className d.slot d.transform

/-- The word for a slot; the class itself has none. -/
def slotWord? : Slot → Option String
  | .own => none
  | .allFields => some "*"
  | .allMethods => some "*()"
  | .field n => some n
  | .method m => some m.display

/-- The characters of the line of a directive. -/
def chars (names : ClassNames) (d : Directive) : List Char :=
  let member := match slotWord? d.slot with
    | none => []
    | some w => ' ' :: w.toList
  d.transform.modifier.toList ++ ' ' :: names.render d.className.toList ++ member

end Directive

end Format

end Openness
