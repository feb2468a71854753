import Openness.Proofs.Format.Grammar
import Openness.Proofs.Signatures

/-!
# Reading and writing members

The word for a member of a class is read back as the member if the member can be
written, and no other member is ever read from a word.

* `Signature.parse_display`: a writable method is read back from its text;
* `Signature.isMethod_of_parse`: a method that is read from a word is writable;
* `memberNames_iff`: words stand for a slot exactly if they are the words for the
  slot, and the slot can be written.
-/

namespace Openness

/-! ## Methods -/

namespace Signature

open Format

/-- A writable method is read back from its text. -/
theorem parse_display {m : Signature} (h : IsMethod m) : parse m.display = .ok m :=
  parse_eq_ok_iff.2 ⟨rfl, h.name.nonempty, h.no_paren, h.name.no_blank, h.descriptor⟩

/-- A method that is read from a word is writable, and the word is its text. -/
theorem isMethod_of_parse {text : String} {m : Signature} (h : parse text = .ok m)
    (hword : IsWord text) : IsMethod m ∧ m.display = text := by
  obtain ⟨rfl, hm⟩ := parse_eq_ok_iff.1 h
  -- What a word does not hold, none of its parts does.
  have hmem {c : Char} (hc : c ∈ m.name.toList ∨ c ∈ m.descriptor.toList) :
      c ∈ m.display.toList := by
    rwa [display, String.toList_append, List.mem_append]
  refine ⟨⟨⟨hm.nonempty, hm.no_blank, fun hc => ?_⟩, hm.no_paren, hm.descriptor, fun c hc => ?_,
    fun hc => ?_⟩, rfl⟩
  · exact hword.no_comment (hmem (.inl hc))
  · exact hword.no_blank c (hmem (.inr hc))
  · exact hword.no_comment (hmem (.inr hc))

/-- The wildcard for methods is not the text of one: its descriptor has no
    result. -/
theorem parse_wildcard : parse "*()" = .error (.descriptor "()") := by
  have hparams : FieldType.scanParams [')'] = some ([], []) := by
    rw [FieldType.scanParams]
    rfl
  have hdescriptor : MethodType.parse "()" = .error (.descriptor "()") := by
    rw [MethodType.parse, show "()".toList = ['(', ')'] from rfl, MethodType.ofChars?, hparams]
    rfl
  have hdrop : String.ofList ("*()".toList.dropWhile (· != '(')) = "()" := by decide
  simp only [parse, hdrop, hdescriptor]
  rfl

end Signature

namespace Format

/-! ## Slots -/

/-- Words stand for a slot exactly if they are the words for the slot and the slot
    can be written. -/
theorem memberNames_iff {ws : List String} (hws : ∀ w ∈ ws, IsWord w) {slot : Slot} :
    MemberNames ws slot ↔ ws = (Directive.slotWord? slot).toList ∧ SlotWritable slot := by
  constructor
  · intro h
    cases h with
    | own => exact ⟨rfl, trivial⟩
    | allFields => exact ⟨rfl, trivial⟩
    | allMethods => exact ⟨rfl, trivial⟩
    | method _ _ hparse =>
      obtain ⟨hmethod, hdisplay⟩ := Signature.isMethod_of_parse hparse (hws _ List.mem_cons_self)
      exact ⟨hdisplay ▸ rfl, hmethod⟩
    | field hfields hopen hclose hadd hremove =>
      exact ⟨rfl, hws _ List.mem_cons_self, ⟨hopen, hclose⟩, hfields, hadd, hremove⟩
  · rintro ⟨rfl, h⟩
    cases slot with
    | own => exact .own
    | allFields => exact .allFields
    | allMethods => exact .allMethods
    | field n =>
      have h : IsFieldName n := h
      exact .field h.no_wildcard h.no_parens.1 h.no_parens.2 h.no_mark.1 h.no_mark.2
    | method m =>
      have hparse := Signature.parse_display h
      -- The wildcard is not read as a method, so it is not the text of one.
      have hmethods : m.display ≠ "*()" := fun e => by
        rw [e, Signature.parse_wildcard] at hparse
        cases hparse
      have hopen : '(' ∈ m.display.toList := by
        obtain ⟨t, ht⟩ := IsMethod.descriptor h
        obtain ⟨cs, hcs⟩ := List.head?_eq_some_iff.1 (MethodType.head?_of_parse ht)
        rw [Signature.display, String.toList_append, hcs]
        simp
      exact .method hmethods hopen hparse

theorem isWord_of_slotWord? {slot : Slot} (h : SlotWritable slot) {w : String}
    (hw : Directive.slotWord? slot = some w) : IsWord w := by
  cases slot with
  | own => cases hw
  | allFields =>
    cases hw
    decide
  | allMethods =>
    cases hw
    decide
  | field n =>
    cases hw
    exact IsFieldName.toIsWord h
  | method m =>
    cases hw
    have h : IsMethod m := h
    refine ⟨fun he => h.name.nonempty (String.append_eq_empty_iff.1 he).1, fun c hc => ?_, ?_⟩
    · rw [Signature.display, String.toList_append, List.mem_append] at hc
      exact hc.elim (h.name.no_blank c) (h.no_blank c)
    · rw [Signature.display, String.toList_append, List.mem_append]
      exact not_or.2 ⟨h.name.no_comment, h.no_comment⟩

end Format

end Openness
