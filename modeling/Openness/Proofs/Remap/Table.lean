import Openness.Proofs.Format.Writable
import Openness.Proofs.Remap.Substitution
import Openness.Remap

/-!
# Rename tables that can be written

A table is *writable* if there are words for its new names, and those of classes can
stand in descriptors (`RenameTable.Writable`). Renaming by such a table takes what can be
written to what can be written: classes (`Writable.classTarget`) and members
(`Writable.slotTarget`).

A new name need not be one of the table. That of a nested class is put together of a
name of the table and an end of the old name (`newClass_eq_some_iff`), and a descriptor is
printed again with new names in it. But no character is new then: each is from the old
name or descriptor or from a name of the table (`Writable.mem_newClass`).
-/

namespace Openness

open Format (IsClassName IsFieldName IsMethod IsWord SlotWritable modifierWords)

/-! ## Writable tables -/

/-- The new names of a class and of its members can be written, and that of the class can
    stand in a descriptor. -/
structure ClassRenames.Writable (c : ClassRenames) : Prop where
  renamed : ∀ n, c.renamed = some n → IsClassName n ∧ ';' ∉ n.toList
  fields : ∀ f n, c.fields.find? f = some n → IsFieldName n
  methods : ∀ m n, c.methods.find? m = some n → IsWord n ∧ '(' ∉ n.toList

/-- The new name of an entry can be written, and can stand in a descriptor if it is that
    of a class. -/
def Rename.Writable : Rename → Prop
  | .ofClass _ n => IsClassName n ∧ ';' ∉ n.toList
  | .ofField _ _ n => IsFieldName n
  | .ofMethod _ _ n => IsWord n ∧ '(' ∉ n.toList

instance : (e : Rename) → Decidable e.Writable
  | .ofClass _ n => inferInstanceAs (Decidable (IsClassName n ∧ ';' ∉ n.toList))
  | .ofField _ _ n => inferInstanceAs (Decidable (IsFieldName n))
  | .ofMethod _ _ n => inferInstanceAs (Decidable (IsWord n ∧ '(' ∉ n.toList))

namespace RenameTable

variable {t : RenameTable}

/-- All new names of a table can be written, and those of classes can stand in
    descriptors. -/
def Writable (t : RenameTable) : Prop := ∀ n, (t.find n).Writable

theorem Writable.empty : (∅ : RenameTable).Writable :=
  fun _ => ⟨nofun, nofun, nofun⟩

/-- A table is writable if what it says of each thing could be an entry that is. -/
theorem writable_iff :
    t.Writable ↔ ∀ e : Rename, t.renamed? e.subject = some e.renamed → e.Writable := by
  constructor
  · intro ht e he
    cases e with
    | ofClass n renamed => exact (ht n).renamed renamed he
    | ofField n f renamed => exact (ht n).fields f renamed he
    | ofMethod n m renamed => exact (ht n).methods m renamed he
  · intro h n
    exact ⟨fun renamed => h (.ofClass n renamed), fun f renamed => h (.ofField n f renamed),
      fun m renamed => h (.ofMethod n m renamed)⟩

/-- A table stays writable with an entry that is. -/
theorem Writable.add {e : Rename} (ht : t.Writable) (he : e.Writable) : (t.add e).Writable := by
  rw [writable_iff] at ht ⊢
  intro e' he'
  rw [renamed?_add] at he'
  split at he'
  · rename_i hsubject
    rwa [← Rename.eq_of_subject_eq hsubject (Option.some.inj he')]
  · exact ht e' he'

/-- A table of writable entries is writable. -/
theorem Writable.addAll {entries : List Rename} (ht : t.Writable)
    (h : ∀ e ∈ entries, e.Writable) : (t.addAll entries).Writable := by
  induction entries generalizing t with
  | nil => exact ht
  | cons e entries ih =>
    obtain ⟨he, h⟩ := List.forall_mem_cons.1 h
    exact ih (ht.add he) h

/-! ## New class names -/

namespace Writable

variable {n n' : String}

/-- The new names of classes can stand in descriptors. -/
theorem describable (ht : t.Writable) : t.Describable := fun c renamed hrenamed =>
  ⟨((ht c).renamed renamed hrenamed).1.nonempty, ((ht c).renamed renamed hrenamed).2⟩

/-- The characters of a new name are those of the old one and of names of the table. -/
theorem mem_newClass (ht : t.Writable) (h : t.newClass n = some n') {c : Char}
    (hc : c ∈ n'.toList) :
    c ∈ n.toList ∨ ∃ renamed, IsClassName renamed ∧ ';' ∉ renamed.toList ∧ c ∈ renamed.toList := by
  obtain ⟨outer, rest, renamed, hinnermost, rfl⟩ := newClass_eq_some_iff.1 h
  rw [String.toList_append, List.mem_append] at hc
  rcases hc with hc | hc
  · obtain ⟨hrenamed, hend⟩ := (ht outer).renamed renamed hinnermost.named
    exact .inr ⟨renamed, hrenamed, hend, hc⟩
  · exact .inl (hinnermost.encloses.append ▸ List.mem_append_right _ hc)

/-- A class that can be written can be written under its new name. -/
theorem isClassName_newClass (ht : t.Writable) (hn : IsClassName n) (h : t.newClass n = some n') :
    IsClassName n' := by
  refine ⟨⟨ht.describable.newClass_ne_empty h, fun c hc => ?_, fun hc => ?_⟩, fun hc => ?_, ?_⟩
  · exact (ht.mem_newClass h hc).elim (hn.no_blank c) fun ⟨_, hr, _, hc⟩ => hr.no_blank c hc
  · exact (ht.mem_newClass h hc).elim hn.no_comment fun ⟨_, hr, _, hc⟩ => hr.no_comment hc
  · exact (ht.mem_newClass h hc).elim hn.no_dot fun ⟨_, hr, _, hc⟩ => hr.no_dot hc
  · -- A name of the table is no modifier, and no modifier holds a dollar sign.
    obtain ⟨outer, rest, renamed, hinnermost, rfl⟩ := newClass_eq_some_iff.1 h
    rcases hinnermost.encloses.nested with hrest | ⟨inner, hrest⟩
    · rw [String.toList_eq_nil_iff.1 hrest, String.append_empty]
      exact ((ht outer).renamed renamed hinnermost.named).1.no_modifier
    · intro hmodifier
      have no_dollar : ∀ w ∈ modifierWords, '$' ∉ w.toList := by decide
      refine no_dollar _ hmodifier ?_
      rw [String.toList_append, hrest]
      exact List.mem_append_right _ List.mem_cons_self

/-! ## Members -/

/-- A method that can be written can be written under another name that can, with new
    class names in its descriptor. -/
theorem isMethod_renamed (ht : t.Writable) {m : Signature} (hm : IsMethod m) {name : String}
    (hname : IsWord name) (hparen : '(' ∉ name.toList) :
    IsMethod ⟨name, renameDescriptor t.newClass m.descriptor⟩ := by
  obtain ⟨type, htype⟩ := hm.descriptor
  obtain ⟨hprinted, hwell⟩ := (MethodType.readsPrinted.ok_iff _ _).1 htype
  have old : ∀ c ∈ type.chars, Text.isBlank c = false ∧ c ≠ '#' := by
    have hchars : m.descriptor.toList = type.chars := hprinted ▸ String.toList_ofList
    rw [← hchars]
    exact fun c hc => ⟨hm.no_blank c hc, fun e => hm.no_comment (e ▸ hc)⟩
  -- The characters come from the old descriptor and from names of the table.
  have new : ∀ c ∈ (type.rename t.newClass).display.toList,
      Text.isBlank c = false ∧ c ≠ '#' := by
    rw [MethodType.display, String.toList_ofList]
    refine MethodType.forall_chars_rename old fun n hn n' hn' c hc => ?_
    rcases ht.mem_newClass hn' hc with hc | ⟨_, hr, -, hc⟩
    · exact old c (MethodType.mem_chars_of_mem_names hn hc)
    · exact ⟨hr.no_blank c hc, fun e => hr.no_comment (e ▸ hc)⟩
  rw [renameDescriptor_of_parse htype]
  refine ⟨hname, hparen, ⟨type.rename t.newClass, ?_⟩, fun c hc => (new c hc).1,
    fun hc => (new '#' hc).2 rfl⟩
  refine (MethodType.readsPrinted.ok_iff _ _).2 ⟨rfl, hwell.rename fun n hn n' hn' => ?_⟩
  exact ht.describable.newClass (hwell.of_mem_names n hn) hn'

/-- A slot that can be written goes to one that can. -/
theorem slotTarget (ht : t.Writable) {slot : Slot} (h : SlotWritable slot) (n : String) :
    SlotWritable (t.renamer.slotTarget n slot) := by
  cases slot with
  | own => trivial
  | allFields => trivial
  | allMethods => trivial
  | field f =>
    show IsFieldName (((t.find n).fields.find? f).getD f)
    cases hf : (t.find n).fields.find? f with
    | none => exact h
    | some renamed => exact (ht n).fields f renamed hf
  | method m =>
    have hm : IsMethod m := h
    show IsMethod ((((t.find n).methods.find? m).map fun renamed =>
      (⟨renamed, renameDescriptor t.newClass m.descriptor⟩ : Signature)).getD
        ⟨m.name, renameDescriptor t.newClass m.descriptor⟩)
    cases hname : (t.find n).methods.find? m with
    | none => exact ht.isMethod_renamed hm hm.name hm.no_paren
    | some renamed =>
      obtain ⟨hrenamed, hparen⟩ := (ht n).methods m renamed hname
      exact ht.isMethod_renamed hm hrenamed hparen

theorem classTarget (ht : t.Writable) (hn : IsClassName n) :
    IsClassName (t.renamer.classTarget n) := by
  show IsClassName ((t.newClass n).getD n)
  cases h : t.newClass n with
  | none => exact hn
  | some n' => exact ht.isClassName_newClass hn h

end Writable

end RenameTable

end Openness
