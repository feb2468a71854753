import Openness.Proofs.Format.MemberRoundTrip

/-!
# Reading and writing directives

A line says what it says through its words, and so the words of a directive
(`Directive.words`) are all that writing it comes to. Class names are written in
either style by replacing one character by another, which is undone by replacing
them the other way round as long as the new one was not there before.

* `Directive.parse_chars`: a writable directive is read back from its line;
* `Directive.writable_of_parse`: a directive that is read from a line is writable.
-/

namespace Openness

namespace Format

/-! ## Class names -/

/-- One character in place of another one. -/
def replace (a b : Char) (cs : List Char) : List Char := cs.map fun c => if c = a then b else c

theorem mem_of_mem_replace {a b c : Char} {cs : List Char} (h : c ∈ replace a b cs) :
    c = b ∨ c ∈ cs := by
  obtain ⟨d, hd, rfl⟩ := List.mem_map.1 h
  split
  · exact .inl rfl
  · exact .inr hd

theorem replace_of_not_mem {a b : Char} {cs : List Char} (h : a ∉ cs) : replace a b cs = cs := by
  have hid : ∀ c ∈ cs, (if c = a then b else c) = c :=
    fun c hc => if_neg fun e : c = a => h (e ▸ hc)
  exact (List.map_congr_left hid).trans (List.map_id' cs)

/-- Where the new character does not turn up, nothing was replaced. -/
theorem replace_eq_self {a b : Char} {cs : List Char} (h : b ∉ replace a b cs) :
    replace a b cs = cs :=
  replace_of_not_mem fun ha => h (List.mem_map.2 ⟨a, ha, if_pos rfl⟩)

theorem not_mem_replace {a b : Char} (hab : a ≠ b) (cs : List Char) : a ∉ replace a b cs := by
  intro h
  obtain ⟨c, -, hc⟩ := List.mem_map.1 h
  split at hc
  · exact hab hc.symm
  · contradiction

/-- Replacing a character and putting it back changes nothing, if the new one was
    not there before. -/
theorem replace_replace {a b : Char} {cs : List Char} (h : b ∉ cs) :
    replace b a (replace a b cs) = cs := by
  rw [replace, replace, List.map_map]
  refine (List.map_congr_left fun c hc => ?_).trans (List.map_id' cs)
  have hcb : c ≠ b := fun e => h (e ▸ hc)
  by_cases hca : c = a
  · simp [hca]
  · simp [hca, hcb]

theorem replace_eq_nil_iff {a b : Char} {cs : List Char} : replace a b cs = [] ↔ cs = [] :=
  List.map_eq_nil_iff

/-- A word with a plain character in place of another one is a word. -/
theorem IsWord.replace {text : String} (h : IsWord text) {a b : Char}
    (hb : Text.isBlank b = false) (hb' : b ≠ '#') :
    IsWord (String.ofList (Format.replace a b text.toList)) := by
  refine ⟨?_, fun c hc => ?_, fun hc => ?_⟩
  · simpa [replace_eq_nil_iff] using h.nonempty
  · rw [String.toList_ofList] at hc
    rcases mem_of_mem_replace hc with rfl | hc
    · exact hb
    · exact h.no_blank c hc
  · rw [String.toList_ofList] at hc
    rcases mem_of_mem_replace hc with hc | hc
    · exact hb' hc.symm
    · exact h.no_comment hc

/-- A class name is read back as it is written. -/
theorem internalName_render (names : ClassNames) {name : List Char} (h : '.' ∉ name) :
    internalName (names.render name) = name := by
  cases names with
  | internal => exact replace_of_not_mem h
  | binary => exact replace_replace h

/-- A written class name is a word. -/
theorem IsClassName.isWord_render {name : String} (h : IsClassName name) (names : ClassNames) :
    IsWord (String.ofList (names.render name.toList)) := by
  cases names with
  | internal => simpa [ClassNames.render] using h.toIsWord
  | binary => exact h.toIsWord.replace (by decide) (by decide)

/-- A written class name is no modifier, as the dots that stand for slashes are in
    none. -/
theorem IsClassName.render_not_mem {name : String} (h : IsClassName name) (names : ClassNames) :
    String.ofList (names.render name.toList) ∉ modifierWords := by
  cases names with
  | internal => simpa [ClassNames.render] using h.no_modifier
  | binary =>
    intro hmem
    have hdot : '.' ∉ ClassNames.binary.render name.toList := by
      simpa using (no_separator_of_mem_modifierWords _ hmem).2
    have hname : String.ofList (ClassNames.binary.render name.toList) = name := by
      rw [show ClassNames.binary.render name.toList = name.toList from replace_eq_self hdot,
        String.ofList_toList]
    exact h.no_modifier (hname ▸ hmem)

/-- A class name that is read is one that can be written. -/
theorem isClassName_internalName {w : String} (hw : IsWord w) (hmodifier : w ∉ modifierWords) :
    IsClassName (String.ofList (internalName w.toList)) := by
  refine ⟨hw.replace (by decide) (by decide), ?_, fun hmem => hmodifier ?_⟩
  · rw [String.toList_ofList]
    exact not_mem_replace (by decide) _
  · have hslash : '/' ∉ internalName w.toList := by
      simpa using (no_separator_of_mem_modifierWords _ hmem).1
    rwa [show internalName w.toList = w.toList from replace_eq_self hslash,
      String.ofList_toList] at hmem

namespace Directive

/-! ## Directives -/

variable {d : Directive}

/-- The words of the line of a directive. -/
def words (names : ClassNames) (d : Directive) : List String :=
  d.transform.modifier :: String.ofList (names.render d.className.toList) ::
    (slotWord? d.slot).toList

/-- The line of a directive is its words with a space between them. -/
theorem chars_eq (names : ClassNames) (d : Directive) :
    d.chars names = [' '].intercalate ((d.words names).map String.toList) := by
  rw [chars, words]
  cases slotWord? d.slot <;> simp [List.intercalate_cons_cons]

theorem Writable.isWord_of_mem_words (h : d.Writable) {names : ClassNames} :
    ∀ w ∈ d.words names, IsWord w := by
  intro w hw
  rcases List.mem_cons.1 hw with rfl | hw
  · exact isWord_of_mem_modifierWords _ (modifier_mem h.transform)
  rcases List.mem_cons.1 hw with rfl | hw
  · exact h.className.isWord_render names
  · exact isWord_of_slotWord? h.slot (Option.mem_toList.1 hw)

theorem lineWords_chars (h : d.Writable) (names : ClassNames) :
    lineWords (String.ofList (d.chars names)) = d.words names := by
  rw [chars_eq]
  exact lineWords_intercalate h.isWord_of_mem_words

/-- The words of a writable directive say what it does. -/
theorem ofWords_words (h : d.Writable) (names : ClassNames) :
    ofWords (d.words names) = .ok (some d) := by
  refine ofWords_eq_some_iff.2 ⟨⟨[d.transform.modifier],
    String.ofList (names.render d.className.toList), (slotWord? d.slot).toList⟩, rfl, ?_, ?_, ?_, ?_⟩
  · exact .word (ofModifier?_eq_some_iff_wordAsks.1 (Transform.ofModifier?_modifier h.transform))
  · exact h.className.render_not_mem names
  · have hname := internalName_render names h.className.no_dot
    rw [internalName] at hname
    rw [String.toList_ofList, hname, String.ofList_toList]
  · refine (memberNames_iff fun w hw => ?_).2 ⟨rfl, h.slot⟩
    exact isWord_of_slotWord? h.slot (Option.mem_toList.1 hw)

/-- What words say can be written. -/
theorem writable_of_ofWords {ws : List String} (hws : ∀ w ∈ ws, IsWord w)
    (h : ofWords ws = .ok (some d)) : d.Writable := by
  obtain ⟨p, rfl, hp⟩ := ofWords_eq_some_iff.1 h
  rw [Clause.words, List.forall_mem_append, List.forall_mem_append,
    List.forall_mem_singleton] at hws
  obtain ⟨⟨-, hclass⟩, hmember⟩ := hws
  refine ⟨hp.modifier.ne_neutral, ?_, ((memberNames_iff hmember).1 hp.member).2⟩
  rw [hp.className]
  exact isClassName_internalName hclass hp.no_modifier

/-- A writable directive is read back from its line. -/
theorem parse_chars (h : d.Writable) (names : ClassNames) :
    parse (String.ofList (d.chars names)) = .ok (some d) := by
  rw [parse, lineWords_chars h, ofWords_words h]

/-- A directive that is read from a line can be written. -/
theorem writable_of_parse {line : String} (h : parse line = .ok (some d)) : d.Writable :=
  writable_of_ofWords (fun _ hw => isWord_of_mem_lineWords hw) h

end Directive

end Format

end Openness
