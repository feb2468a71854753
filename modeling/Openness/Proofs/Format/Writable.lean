import Mathlib.Data.List.Perm.Basic
import Openness.Proofs.Format.Words

/-!
# What a line can hold

The text format has no way to quote a word, so not every name can be written: a
name with a blank falls into two words, one with a `#` is cut short, and some
words have a meaning of their own where a name is expected. A class is
*writable* if none of this happens to its name or to those of its members
(`ClassEntry.Writable`).

* `Transform.isSome_ofModifier?_iff`: the words that stand for a modifier;
* `ClassEntry.writable_iff`: a class is writable exactly if each slot that
  something is asked of is.
-/

namespace Openness

namespace Format

/-! ## Names -/

/-- The words that stand for a modifier: a keyword, alone or with a mark of
    finality right behind it, or a mark alone. -/
def modifierWords : List String :=
  (["public", "protected", "default", "private"].flatMap fun k => [k, k ++ "+f", k ++ "-f"])
    ++ ["+f", "-f"]

/-- What can stand for a class: a word that is no modifier. As dots separate the
    parts of a written name, no part may hold one. -/
structure IsClassName (name : String) : Prop extends IsWord name where
  no_dot : '.' ∉ name.toList
  no_modifier : name ∉ modifierWords

instance (name : String) : Decidable (IsClassName name) :=
  decidable_of_iff (IsWord name ∧ '.' ∉ name.toList ∧ name ∉ modifierWords)
    ⟨fun ⟨hword, hdot, hmodifier⟩ => ⟨hword, hdot, hmodifier⟩,
      fun h => ⟨h.toIsWord, h.no_dot, h.no_modifier⟩⟩

/-- What can stand for a field: a word that is neither a wildcard, nor a mark of
    finality, nor like a signature. -/
structure IsFieldName (name : String) : Prop extends IsWord name where
  no_parens : '(' ∉ name.toList ∧ ')' ∉ name.toList
  no_wildcard : name ≠ "*"
  no_mark : name ≠ "+f" ∧ name ≠ "-f"

instance (name : String) : Decidable (IsFieldName name) :=
  decidable_of_iff (IsWord name ∧ ('(' ∉ name.toList ∧ ')' ∉ name.toList) ∧ name ≠ "*" ∧
      name ≠ "+f" ∧ name ≠ "-f")
    ⟨fun ⟨hword, hparens, hwildcard, hmark⟩ => ⟨hword, hparens, hwildcard, hmark⟩,
      fun h => ⟨h.toIsWord, h.no_parens, h.no_wildcard, h.no_mark⟩⟩

/-- What can stand for a method: a name that ends where the descriptor starts,
    and a proper descriptor, together one word. -/
structure IsMethod (m : Signature) : Prop where
  name : IsWord m.name
  no_paren : '(' ∉ m.name.toList
  descriptor : ∃ t, MethodType.parse m.descriptor = .ok t
  no_blank : ∀ c ∈ m.descriptor.toList, Text.isBlank c = false
  no_comment : '#' ∉ m.descriptor.toList

/-- A slot that a word can stand for. -/
def SlotWritable : Slot → Prop
  | .field n => IsFieldName n
  | .method m => IsMethod m
  | _ => True

/-- A directive that a line can hold. -/
structure Directive.Writable (d : Directive) : Prop where
  transform : d.transform ≠ .neutral
  className : IsClassName d.className
  slot : SlotWritable d.slot

end Format

/-- A class that can be written: there are words for its name and for the single
    fields and methods that something is asked of. -/
structure ClassEntry.Writable (c : ClassEntry) : Prop where
  name : Format.IsClassName c.name
  fields : ∀ e ∈ c.transforms.fields.toList, Format.IsFieldName e.1
  methods : ∀ e ∈ c.transforms.methods.toList, Format.IsMethod e.1

/-- A class can be written exactly if each of its directives can. -/
theorem ClassEntry.writable_iff {c : ClassEntry} :
    c.Writable ↔ Format.IsClassName c.name ∧
      ∀ slot, c.transforms.get slot ≠ .neutral → Format.SlotWritable slot := by
  constructor
  · intro h
    refine ⟨h.name, fun slot hslot => ?_⟩
    cases slot with
    | field n => exact h.fields (n, _) (Slots.mem_toList.2 ⟨rfl, hslot⟩)
    | method m => exact h.methods (m, _) (Slots.mem_toList.2 ⟨rfl, hslot⟩)
    | _ => trivial
  · rintro ⟨hname, h⟩
    refine ⟨hname, fun e he => ?_, fun e he => ?_⟩
    · obtain ⟨hget, hne⟩ := Slots.mem_toList.1 (show (e.1, e.2) ∈ _ from he)
      exact h (.field e.1) fun h₀ => hne (hget.symm.trans h₀)
    · obtain ⟨hget, hne⟩ := Slots.mem_toList.1 (show (e.1, e.2) ∈ _ from he)
      exact h (.method e.1) fun h₀ => hne (hget.symm.trans h₀)

/-! ## Modifiers -/

/-- The words that stand for a modifier are those listed. -/
theorem Transform.isSome_ofModifier?_iff {word : String} :
    (ofModifier? word).isSome = true ↔ word ∈ Format.modifierWords := by
  have hperm : (all.map modifier).Perm Format.modifierWords := by decide
  rw [← hperm.mem_iff, ofModifier?, List.find?_isSome, List.mem_map]
  simp

theorem Finality.isSome_ofMark?_iff {word : String} :
    (ofMark? word).isSome = true ↔ word = "+f" ∨ word = "-f" := by
  rw [ofMark?, List.find?_isSome]
  simp only [List.mem_cons, List.not_mem_nil, or_false, exists_eq_or_imp, exists_eq_left, mark]
  exact or_congr (decide_eq_true_iff.trans eq_comm) (decide_eq_true_iff.trans eq_comm)

namespace Format

theorem isWord_of_mem_modifierWords : ∀ w ∈ modifierWords, IsWord w := by
  decide

/-- No modifier looks like a name of several parts. -/
theorem no_separator_of_mem_modifierWords :
    ∀ w ∈ modifierWords, '/' ∉ w.toList ∧ '.' ∉ w.toList := by
  decide

theorem modifier_mem {t : Transform} (h : t ≠ .neutral) : t.modifier ∈ modifierWords := by
  rw [← Transform.isSome_ofModifier?_iff, Transform.ofModifier?_modifier h]
  rfl

end Format

end Openness
