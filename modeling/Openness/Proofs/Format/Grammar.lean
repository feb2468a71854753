import Openness.Proofs.Format.Writable

/-!
# The grammar of a line

What a line may be, said without going through its words one by one. They fall into three
parts (`Clause`): a modifier, a class, and perhaps a member. Each part has a grammar of its
own, which also says what the part stands for (`Clause.Says`).

A reader that looks at one word after the other accepts just that
(`Directive.parse_by_grammar`): no words are no directive, words that fall into such parts are
the directive that the parts stand for, and anything else is malformed. There is no more than
one way to take words apart, although a mark of finality may be part of a word, a word of its
own or no part of a modifier at all: what follows a modifier is never another one
(`Clause.eq_of_words_eq`).

* `ofModifier?_eq_some_iff_wordAsks`, `exists_takeMark_iff`: the modifier;
* `slotOfWords_eq_ok_iff`: the member;
* `Directive.ofWords_eq_some_iff`: the whole.
-/

namespace Openness

/-! ## Parts of a line -/

namespace Format

/-- The access keywords and what they ask for. -/
def keywords : List (String × Access) :=
  [("public", .toPublic), ("protected", .toProtected), ("default", .toPackage),
    ("private", .toPrivate)]

/-- The marks of finality and what they ask for. -/
def marks : List (String × Finality) := [("+f", .add), ("-f", .remove)]

/-- One word asks for a transform: a keyword, a mark, or a keyword with a mark right behind
    it. -/
inductive WordAsks : String → Transform → Prop
  | keyword {k : String × Access} : k ∈ keywords → WordAsks k.1 ⟨k.2, .keep⟩
  | mark {f : String × Finality} : f ∈ marks → WordAsks f.1 ⟨.keep, f.2⟩
  | attached {k : String × Access} {f : String × Finality} :
      k ∈ keywords → f ∈ marks → WordAsks (k.1 ++ f.1) ⟨k.2, f.2⟩

/-- The words of a modifier ask for a transform: one word, or a keyword and a mark. -/
inductive ModifierAsks : List String → Transform → Prop
  | word {w : String} {t : Transform} : WordAsks w t → ModifierAsks [w] t
  | separate {k : String × Access} {f : String × Finality} :
      k ∈ keywords → f ∈ marks → ModifierAsks [k.1, f.1] ⟨k.2, f.2⟩

/-- The words behind a class stand for one of its slots. -/
inductive MemberNames : List String → Slot → Prop
  | own : MemberNames [] .own
  | allFields : MemberNames ["*"] .allFields
  | allMethods : MemberNames ["*()"] .allMethods
  | method {w : String} {m : Signature} :
      w ≠ "*()" → '(' ∈ w.toList → Signature.parse w = .ok m → MemberNames [w] (.method m)
  | field {w : String} :
      w ≠ "*" → '(' ∉ w.toList → ')' ∉ w.toList → w ≠ "+f" → w ≠ "-f" → MemberNames [w] (.field w)

/-- The words of a line by the parts that they belong to. -/
structure Clause where
  /-- The words of the modifier. -/
  modifier : List String
  /-- The word for the class. -/
  className : String
  /-- The words for the member. -/
  member : List String

namespace Clause

/-- The words of the parts, one part after the other. -/
def words (p : Clause) : List String := p.modifier ++ [p.className] ++ p.member

/-- The parts are well-formed and together say what a directive does. -/
structure Says (p : Clause) (d : Directive) : Prop where
  modifier : ModifierAsks p.modifier d.transform
  /-- No modifier stands for a class. -/
  no_modifier : p.className ∉ modifierWords
  /-- The parts of a class name may be separated by dots as well as by slashes. -/
  className : d.className = String.ofList (p.className.toList.map fun c => if c = '.' then '/' else c)
  member : MemberNames p.member d.slot

end Clause

/-! ## Modifiers -/

theorem mem_keywords {k : String} {a : Access} :
    (k, a) ∈ keywords ↔ a.keyword = k ∧ a ≠ .keep := by
  cases a <;> simp [keywords, Access.keyword, eq_comm]

theorem mem_marks {f : String} {g : Finality} : (f, g) ∈ marks ↔ g.mark = f ∧ g ≠ .keep := by
  cases g <;> simp [marks, Finality.mark, eq_comm]

theorem modifier_of_access (a : Access) : (⟨a, .keep⟩ : Transform).modifier = a.keyword := by
  simp [Transform.modifier, Finality.mark]

theorem modifier_of_finality (g : Finality) : (⟨.keep, g⟩ : Transform).modifier = g.mark := by
  simp [Transform.modifier, Access.keyword]

/-- The reader knows the words that ask for a transform, and what they ask for. -/
theorem ofModifier?_eq_some_iff_wordAsks {w : String} {t : Transform} :
    Transform.ofModifier? w = some t ↔ WordAsks w t := by
  rw [Transform.ofModifier?_eq_some_iff]
  constructor
  · rintro ⟨rfl, ht⟩
    rcases t with ⟨a, g⟩
    by_cases ha : a = .keep
    · subst ha
      have hg : g ≠ .keep := fun hg => ht (by rw [hg]; rfl)
      rw [modifier_of_finality]
      exact .mark (mem_marks.2 ⟨rfl, hg⟩)
    have hk := mem_keywords.2 ⟨rfl, ha⟩
    by_cases hg : g = .keep
    · subst hg
      rw [modifier_of_access]
      exact .keyword hk
    · exact .attached hk (mem_marks.2 ⟨rfl, hg⟩)
  · intro h
    cases h with
    | keyword hk =>
      obtain ⟨hword, ha⟩ := mem_keywords.1 hk
      exact ⟨(modifier_of_access _).trans hword, fun e => ha (congrArg Transform.access e)⟩
    | mark hf =>
      obtain ⟨hword, hg⟩ := mem_marks.1 hf
      exact ⟨(modifier_of_finality _).trans hword, fun e => hg (congrArg Transform.finality e)⟩
    | attached hk hf =>
      obtain ⟨hkeyword, ha⟩ := mem_keywords.1 hk
      obtain ⟨hmark, -⟩ := mem_marks.1 hf
      exact ⟨congr (congrArg _ hkeyword) hmark, fun e => ha (congrArg Transform.access e)⟩

/-- A mark that stands on its own is a word for a modifier. -/
theorem mem_modifierWords_of_mem_marks {f : String × Finality} (hf : f ∈ marks) :
    f.1 ∈ modifierWords := by
  revert f
  decide

/-- A word that is no modifier is not taken for a mark of finality. -/
theorem takeMark_of_not_mem {w : String} (h : w ∉ modifierWords) (t : Transform)
    (ws : List String) : takeMark t (w :: ws) = (t, w :: ws) := by
  have hmark : Finality.ofMark? w = none := by
    rw [← Option.not_isSome_iff_eq_none, Finality.isSome_ofMark?_iff]
    rintro (rfl | rfl)
    · exact h (by decide)
    · exact h (by decide)
  rw [takeMark, hmark]
  cases t.finality <;> rfl

/-- The words for a modifier, and where the reader finds the end of them: a mark is taken
    along, and the word for a class is none. -/
theorem exists_takeMark_iff {w c : String} {ws vs : List String} {u : Transform}
    (hc : c ∉ modifierWords) :
    (∃ t, Transform.ofModifier? w = some t ∧ takeMark t ws = (u, c :: vs)) ↔
      ∃ ms, ModifierAsks ms u ∧ ms ++ c :: vs = w :: ws := by
  constructor
  · rintro ⟨t, ht, htake⟩
    rw [ofModifier?_eq_some_iff_wordAsks] at ht
    rcases ws with _ | ⟨f, ws⟩
    · cases htake
    rw [takeMark] at htake
    split at htake
    · rename_i g hkeep hg
      cases htake
      obtain ⟨hmark, hne⟩ := Finality.ofMark?_eq_some_iff.1 hg
      -- A word that asks for no change of the final flag is a keyword.
      cases ht with
      | keyword hk => exact ⟨_, .separate hk (mem_marks.2 ⟨hmark, hne⟩), rfl⟩
      | mark hf => exact absurd hkeep (mem_marks.1 hf).2
      | attached _ hf => exact absurd hkeep (mem_marks.1 hf).2
    · cases htake
      exact ⟨[w], .word ht, rfl⟩
  · rintro ⟨ms, hms, heq⟩
    cases hms with
    | word ht =>
      obtain ⟨rfl, rfl⟩ := List.cons.inj heq
      exact ⟨u, ofModifier?_eq_some_iff_wordAsks.2 ht, takeMark_of_not_mem hc ..⟩
    | @separate k f hk hf =>
      obtain ⟨rfl, rfl⟩ := List.cons.inj heq
      refine ⟨_, ofModifier?_eq_some_iff_wordAsks.2 (.keyword hk), ?_⟩
      show takeMark ⟨k.2, .keep⟩ (f.1 :: c :: vs) = _
      rw [takeMark, Finality.ofMark?_eq_some_iff.2 (mem_marks.1 hf)]

/-! ## Members -/

/-- One word stands for a slot of a class exactly if the reader finds the slot in it. -/
theorem slotOfWord_eq_ok_iff {w : String} {slot : Slot} :
    slotOfWord w = .ok slot ↔ MemberNames [w] slot := by
  constructor
  · -- A wildcard, a method, a word that is refused, or else a field.
    intro h
    unfold slotOfWord at h
    split at h
    · rename_i hstar
      cases h
      exact hstar ▸ .allFields
    split at h
    · rename_i hstar
      cases h
      exact hstar ▸ .allMethods
    rename_i hfields hmethods
    split at h
    · rename_i hopen
      split at h
      · rename_i hparse
        cases h
        exact .method hmethods hopen hparse
      · cases h
    · rename_i hopen
      split at h
      · cases h
      · rename_i hbad
        cases h
        rw [Bool.or_eq_true, not_or, decide_eq_true_eq, Finality.isSome_ofMark?_iff, not_or] at hbad
        exact .field hfields hopen hbad.1 hbad.2.1 hbad.2.2
  · intro h
    cases h with
    | allFields => rfl
    | allMethods => rfl
    | method hmethods hopen hparse =>
      have hfields : w ≠ "*" := by
        rintro rfl
        exact absurd hopen (by decide)
      rw [slotOfWord, if_neg hfields, if_neg hmethods, if_pos hopen, hparse]
    | field hfields hopen hclose hadd hremove =>
      have hmethods : w ≠ "*()" := by
        rintro rfl
        exact absurd hopen (by decide)
      have hmark : ¬(Finality.ofMark? w).isSome = true := by
        rw [Finality.isSome_ofMark?_iff, not_or]
        exact ⟨hadd, hremove⟩
      rw [slotOfWord, if_neg hfields, if_neg hmethods, if_neg hopen, if_neg]
      rw [Bool.or_eq_true, not_or, decide_eq_true_eq]
      exact ⟨hclose, hmark⟩

theorem slotOfWords_singleton (w : String) : slotOfWords [w] = slotOfWord w := by
  cases h : slotOfWord w <;> simp [slotOfWords, h]

/-- No slot has more than one word. -/
theorem slotOfWords_cons_cons_ne_ok (w extra : String) (ws : List String) (slot : Slot) :
    slotOfWords (w :: extra :: ws) ≠ .ok slot := by
  cases h : slotOfWord w <;> simp [slotOfWords, h]

/-- The words behind a class stand for a slot exactly if the reader finds the slot in them. -/
theorem slotOfWords_eq_ok_iff {ws : List String} {slot : Slot} :
    slotOfWords ws = .ok slot ↔ MemberNames ws slot := by
  rcases ws with _ | ⟨w, _ | ⟨extra, ws⟩⟩
  · constructor
    · rintro ⟨⟩
      exact .own
    · rintro ⟨⟩
      rfl
  · rw [slotOfWords_singleton, slotOfWord_eq_ok_iff]
  · exact iff_of_false (slotOfWords_cons_cons_ne_ok _ _ _ _) nofun

/-! ## Lines -/

/-- A modifier is one word, or the second one of its words is a mark. -/
theorem ModifierAsks.eq_singleton_or_pair {ms : List String} {t : Transform}
    (h : ModifierAsks ms t) : (∃ w, ms = [w]) ∨ ∃ k, ∃ f ∈ modifierWords, ms = [k, f] := by
  cases h with
  | word _ => exact .inl ⟨_, rfl⟩
  | separate _ hf => exact .inr ⟨_, _, mem_modifierWords_of_mem_marks hf, rfl⟩

/-- A modifier asks for something. -/
theorem ModifierAsks.ne_neutral {ms : List String} {t : Transform} (h : ModifierAsks ms t) :
    t ≠ .neutral := by
  have hword {w : String} {t : Transform} (ht : WordAsks w t) : t ≠ .neutral :=
    (Transform.ofModifier?_eq_some_iff.1 (ofModifier?_eq_some_iff_wordAsks.2 ht)).2
  cases h with
  | word ht => exact hword ht
  | separate hk hf => exact hword (.attached hk hf)

/-- Words can be taken apart in one way only. -/
theorem Clause.eq_of_words_eq {p q : Clause} {d e : Directive} (hp : p.Says d) (hq : q.Says e)
    (h : p.words = q.words) : p = q := by
  rcases p with ⟨ms, c, vs⟩
  rcases q with ⟨ms', c', vs'⟩
  have hclass : c ∉ modifierWords := hp.no_modifier
  have hclass' : c' ∉ modifierWords := hq.no_modifier
  have hmodifier := hp.modifier.eq_singleton_or_pair
  have hmodifier' := hq.modifier.eq_singleton_or_pair
  simp only [words] at h hmodifier hmodifier'
  -- Where one modifier goes on with a mark, that mark would be the class of the other one.
  obtain ⟨w, rfl⟩ | ⟨k, f, hf, rfl⟩ := hmodifier
  · obtain ⟨w', rfl⟩ | ⟨k', f', hf', rfl⟩ := hmodifier'
    · cases h
      rfl
    · cases h
      exact absurd hf' hclass
  · obtain ⟨w', rfl⟩ | ⟨k', f', hf', rfl⟩ := hmodifier'
    · cases h
      exact absurd hf hclass'
    · cases h
      rfl

namespace Directive

variable {d : Directive}

/-- No words are no directive, and nothing else is. -/
theorem ofWords_eq_none_iff {ws : List String} : ofWords ws = .ok none ↔ ws = [] := by
  constructor
  · intro h
    rcases ws with _ | ⟨w, ws⟩
    · rfl
    exfalso
    rw [ofWords] at h
    split at h
    · cases h
    split at h
    · cases h
    split at h
    · cases h
    split at h
    · cases h
    · cases h
  · rintro rfl
    rfl

/-- What the reader finds, word by word: a modifier, a word for a class that is none, and the
    words for a slot. -/
theorem ofWords_cons_eq_some_iff {w : String} {ws : List String} :
    ofWords (w :: ws) = .ok (some d) ↔ ∃ t c vs, Transform.ofModifier? w = some t ∧
      takeMark t ws = (d.transform, c :: vs) ∧ c ∉ modifierWords ∧
        slotOfWords vs = .ok d.slot ∧ d.className = String.ofList (internalName c.toList) := by
  constructor
  · intro h
    rw [ofWords] at h
    split at h
    · cases h
    rename_i t ht
    split at h
    · cases h
    rename_i c vs htake
    split at h
    · cases h
    rename_i hc
    split at h
    · cases h
    · rename_i hslot
      cases h
      exact ⟨t, c, vs, ht, htake, Transform.isSome_ofModifier?_iff.not.1 hc, hslot, rfl⟩
  · rintro ⟨t, c, vs, ht, htake, hc, hslot, hname⟩
    rw [← Transform.isSome_ofModifier?_iff] at hc
    simp only [ofWords, ht, htake, if_neg hc, hslot, ← hname]

/-- Words say what a directive does exactly if the reader finds the directive in them. -/
theorem ofWords_eq_some_iff {ws : List String} :
    ofWords ws = .ok (some d) ↔ ∃ p : Clause, p.words = ws ∧ p.Says d := by
  rcases ws with _ | ⟨w, ws⟩
  · refine iff_of_false nofun ?_
    rintro ⟨p, hp, -⟩
    simp [Clause.words] at hp
  rw [ofWords_cons_eq_some_iff]
  constructor
  · rintro ⟨t, c, vs, ht, htake, hc, hslot, hname⟩
    obtain ⟨ms, hms, hwords⟩ := (exists_takeMark_iff hc).1 ⟨t, ht, htake⟩
    refine ⟨⟨ms, c, vs⟩, ?_, hms, hc, hname, slotOfWords_eq_ok_iff.1 hslot⟩
    rw [Clause.words, List.append_assoc, List.singleton_append, hwords]
  · rintro ⟨⟨ms, c, vs⟩, hwords, hms, hc, hname, hmember⟩
    rw [Clause.words, List.append_assoc, List.singleton_append] at hwords
    obtain ⟨t, ht, htake⟩ := (exists_takeMark_iff hc).2 ⟨ms, hms, hwords⟩
    exact ⟨t, c, vs, ht, htake, hc, slotOfWords_eq_ok_iff.2 hmember, hname⟩

/-- A line of some words is read as the parts of these words say, and in no other way. -/
structure ByGrammar (line : String) (ws : List String) : Prop where
  /-- The words are those that blanks part before the first `#`. -/
  words_iff : ∀ cs, Text.Parted (line.toList.takeWhile (· != '#')) cs ↔ cs = ws.map String.toList
  /-- No words are no directive. -/
  none_iff : parse line = .ok none ↔ ws = []
  /-- Words that fall into well-formed parts are a directive, and it is what these say. -/
  some_iff : ∀ d, parse line = .ok (some d) ↔ ∃ p : Clause, p.words = ws ∧ p.Says d
  /-- They fall into such parts in one way only. -/
  parts_unique : ∀ p q d e, Clause.words p = ws → Clause.words q = ws → p.Says d → q.Says e → p = q
  /-- A directive asks for something. -/
  ne_neutral : ∀ d, parse line = .ok (some d) → d.transform ≠ .neutral
  /-- Any other words are malformed. -/
  error_iff : (∃ e, parse line = .error e) ↔
    ws ≠ [] ∧ ∀ d, ¬∃ p : Clause, p.words = ws ∧ p.Says d

/-- Every line is read by the grammar of its words. -/
theorem parse_by_grammar (line : String) : ByGrammar line (lineWords line) := by
  have hsome (d : Directive) : parse line = .ok (some d) ↔
      ∃ p : Clause, p.words = lineWords line ∧ p.Says d := ofWords_eq_some_iff
  have hnone : parse line = .ok none ↔ lineWords line = [] := ofWords_eq_none_iff
  refine ⟨fun cs => ?_, hnone, hsome, fun p q d e hp hq hd he => ?_, fun d hd => ?_, ?_⟩
  · rw [← Text.words_eq_iff, lineWords, List.map_map, eq_comm]
    simp
  · exact Clause.eq_of_words_eq hd he (hp.trans hq.symm)
  · obtain ⟨p, -, hp⟩ := (hsome d).1 hd
    exact hp.modifier.ne_neutral
  · rw [Ne, ← hnone]
    simp only [← hsome]
    rcases parse line with e | _ | d <;> simp

/-- Behind a keyword that has its mark already, another mark is in the place of the class. -/
example : ofWords ["private-f", "+f", "x"] = .error (.modifierForClass "+f") := by decide

end Directive

end Format

end Openness
