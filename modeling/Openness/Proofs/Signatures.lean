import Openness.Proofs.Descriptors
import Openness.Signature
import Openness.Text.Separators

/-!
# What the signature parser accepts

A signature is printed as its name with the descriptor right behind it. Both may be any
texts, so the printed form alone does not tell where the one ends and the other begins. It
does if the signature is proper (`Signature.Proper`): a descriptor begins with a parenthesis,
and a proper name holds none. So a text is cut at its first parenthesis
(`Signature.CutAtParen`), whatever parentheses there are further on, in the names of classes
for instance.

The parser accepts the printed forms of proper signatures and nothing else, and it says which
part of any other text is to blame (`Signature.parse_reads_proper`). This comes of two
equations, for a text that can be cut (`Signature.CutAtParen.parse_eq`) and for one that
cannot (`Signature.parse_of_not_mem`).
-/

namespace Openness

/-- A proper descriptor begins with a parenthesis. -/
theorem MethodType.head?_of_parse {text : String} {t : MethodType} (h : parse text = .ok t) :
    text.toList.head? = some '(' := by
  obtain ⟨rfl, -⟩ := (readsPrinted.ok_iff _ _).1 h
  rw [display, String.toList_ofList, chars]
  rfl

/-- A text that cannot be read as a descriptor is refused as it is. -/
theorem MethodType.parse_eq_error {text : String} (h : ∀ t, parse text ≠ .ok t) :
    parse text = .error (.descriptor text) := by
  refine (readsPrinted.error_iff _ _).2 ⟨rfl, ?_⟩
  rintro ⟨t, ht⟩
  exact h t ((readsPrinted.ok_iff _ _).2 ht)

namespace Signature

/-! ## Cutting a text -/

/-- A text is cut at its first parenthesis: `front` holds none, and `rest` begins with one. -/
structure CutAtParen (text front rest : String) : Prop where
  append : text = front ++ rest
  no_paren : '(' ∉ front.toList
  opens : rest.toList.head? = some '('

/-- A text can be cut if it holds a parenthesis. -/
theorem exists_cutAtParen {text : String} (h : '(' ∈ text.toList) :
    ∃ front rest, CutAtParen text front rest := by
  obtain ⟨front, rest, htext, hfront⟩ := List.eq_append_cons_of_mem h
  refine ⟨String.ofList front, String.ofList ('(' :: rest), ?_, ?_, ?_⟩
  · rw [← String.ofList_append, ← htext, String.ofList_toList]
  · rwa [String.toList_ofList]
  · rw [String.toList_ofList]
    rfl

/-- The parser finds the two parts of a text. -/
theorem CutAtParen.takeWhile_dropWhile {text front rest : String} (h : CutAtParen text front rest) :
    text.toList.takeWhile (· != '(') = front.toList ∧
      text.toList.dropWhile (· != '(') = rest.toList := by
  obtain ⟨cs, hcs⟩ := List.head?_eq_some_iff.1 h.opens
  rw [h.append, String.toList_append, hcs]
  exact ⟨Text.takeWhile_append_separator h.no_paren cs,
    Text.dropWhile_append_separator h.no_paren cs⟩

/-! ## Parsing -/

/-- A name has characters, and none of them is a blank. -/
theorem isName_iff {name : String} :
    isName name.toList = true ↔ name ≠ "" ∧ ∀ c ∈ name.toList, Text.isBlank c = false := by
  simp [isName]

theorem isName_eq_false_iff {name : String} :
    isName name.toList = false ↔ name = "" ∨ ∃ c ∈ name.toList, Text.isBlank c = true := by
  rw [← Bool.not_eq_true, isName_iff, not_and_or, not_ne_iff]
  simp

/-- What becomes of a text. There has to be a parenthesis, a name in front of the first one,
    and a descriptor from there on; the first of these that is missing is to blame. -/
inductive Reads (text : String) : Except Refusal Signature → Prop
  | noParen : '(' ∉ text.toList → Reads text (.error (.signature text))
  | noName {name rest : String} : CutAtParen text name rest →
      (name = "" ∨ ∃ c ∈ name.toList, Text.isBlank c = true) →
      Reads text (.error (.signature text))
  | noDescriptor {name rest : String} : CutAtParen text name rest →
      name ≠ "" → (∀ c ∈ name.toList, Text.isBlank c = false) →
      (∀ t, MethodType.parse rest ≠ .ok t) → Reads text (.error (.descriptor rest))
  | signature {name rest : String} {t : MethodType} : CutAtParen text name rest →
      name ≠ "" → (∀ c ∈ name.toList, Text.isBlank c = false) →
      MethodType.parse rest = .ok t → Reads text (.ok ⟨name, rest⟩)

/-- A text without a parenthesis is no signature. -/
theorem parse_of_not_mem {text : String} (h : '(' ∉ text.toList) :
    parse text = .error (.signature text) := by
  simp only [parse, Text.dropWhile_of_not_mem h]
  rfl

/-- The first part of a text is to be a name and the other one a descriptor, and the name is
    looked at first. -/
theorem CutAtParen.parse_eq {text name rest : String} (h : CutAtParen text name rest) :
    parse text = if isName name.toList then (MethodType.parse rest).map fun _ => ⟨name, rest⟩
      else .error (.signature text) := by
  obtain ⟨htake, hdrop⟩ := h.takeWhile_dropWhile
  have hne : rest.toList.isEmpty = false := by
    obtain ⟨cs, hcs⟩ := List.head?_eq_some_iff.1 h.opens
    rw [hcs]
    rfl
  simp only [parse, htake, hdrop, hne, Bool.false_or, Bool.not_eq_true', String.ofList_toList]
  cases isName name.toList with
  | false => rfl
  | true => cases MethodType.parse rest <;> rfl

/-- What becomes of a text is what the parser makes of it. -/
theorem parse_eq_iff {text : String} {r : Except Refusal Signature} :
    parse text = r ↔ Reads text r := by
  constructor
  · rintro rfl
    by_cases hparen : '(' ∈ text.toList
    · obtain ⟨name, rest, hcut⟩ := exists_cutAtParen hparen
      rw [hcut.parse_eq]
      split
      · rename_i hname
        obtain ⟨hne, hblank⟩ := isName_iff.1 hname
        by_cases hrest : ∃ t, MethodType.parse rest = .ok t
        · obtain ⟨t, ht⟩ := hrest
          rw [ht]
          exact .signature hcut hne hblank ht
        · have hrest := not_exists.1 hrest
          rw [MethodType.parse_eq_error hrest]
          exact .noDescriptor hcut hne hblank hrest
      · rename_i hname
        exact .noName hcut (isName_eq_false_iff.1 (Bool.eq_false_iff.2 hname))
    · rw [parse_of_not_mem hparen]
      exact .noParen hparen
  · intro h
    cases h with
    | noParen hparen => exact parse_of_not_mem hparen
    | noName hcut hname =>
      rw [hcut.parse_eq, isName_eq_false_iff.2 hname]
      rfl
    | noDescriptor hcut hne hblank hrest =>
      rw [hcut.parse_eq, isName_iff.2 ⟨hne, hblank⟩, MethodType.parse_eq_error hrest]
      rfl
    | signature hcut hne hblank ht =>
      rw [hcut.parse_eq, isName_iff.2 ⟨hne, hblank⟩, ht]
      rfl

/-! ## Printed forms -/

/-- A signature that a text can stand for: a name with characters, among them neither a
    parenthesis nor a blank, and a descriptor that can be read. -/
structure Proper (m : Signature) : Prop where
  nonempty : m.name ≠ ""
  no_paren : '(' ∉ m.name.toList
  no_blank : ∀ c ∈ m.name.toList, Text.isBlank c = false
  descriptor : ∃ t, MethodType.parse m.descriptor = .ok t

/-- A text is read as the proper signature that it is the printed form of. -/
theorem parse_eq_ok_iff {text : String} {m : Signature} :
    parse text = .ok m ↔ text = m.display ∧ m.Proper := by
  rw [parse_eq_iff]
  constructor
  · intro h
    cases h with
    | signature hcut hne hblank ht => exact ⟨hcut.append, hne, hcut.no_paren, hblank, _, ht⟩
  · rintro ⟨rfl, h⟩
    -- The first parenthesis of the whole is the one that the descriptor begins with.
    obtain ⟨t, ht⟩ := h.descriptor
    have hcut : CutAtParen m.display m.name m.descriptor :=
      ⟨rfl, h.no_paren, MethodType.head?_of_parse ht⟩
    exact .signature hcut h.nonempty h.no_blank ht

/-- `parse` reads the printed forms of proper signatures, and tells what is wrong with any
    other text. -/
structure ReadsProper (parse : String → Except Refusal Signature) : Prop where
  /-- A text is read as the proper signature that it is the printed form of. -/
  ok_iff : ∀ text m, parse text = .ok m ↔ text = m.display ∧ m.Proper
  /-- A text is refused as a whole if it has no parenthesis, or no name in front of the
      first one. -/
  signature_iff : ∀ text e, parse text = .error (.signature e) ↔
    e = text ∧ ('(' ∉ text.toList ∨ ∃ name rest, CutAtParen text name rest ∧
      (name = "" ∨ ∃ c ∈ name.toList, Text.isBlank c = true))
  /-- Behind a name, what begins with the first parenthesis is refused if it is no
      descriptor. -/
  descriptor_iff : ∀ text e, parse text = .error (.descriptor e) ↔
    ∃ name, CutAtParen text name e ∧ name ≠ "" ∧ (∀ c ∈ name.toList, Text.isBlank c = false) ∧
      ∀ t, MethodType.parse e ≠ .ok t
  /-- Signatures that were read are told apart by their printed forms. -/
  display_inj : ∀ text text' m m', parse text = .ok m → parse text' = .ok m' →
    m.display = m'.display → m = m'

/-- The parser reads the printed forms of proper signatures, and refuses any other text for
    the first thing that it lacks. -/
theorem parse_reads_proper : ReadsProper parse where
  ok_iff _ _ := parse_eq_ok_iff
  signature_iff text e := by
    rw [parse_eq_iff]
    constructor
    · intro h
      cases h with
      | noParen hparen => exact ⟨rfl, .inl hparen⟩
      | noName hcut hname => exact ⟨rfl, .inr ⟨_, _, hcut, hname⟩⟩
    · rintro ⟨rfl, hparen | ⟨name, rest, hcut, hname⟩⟩
      · exact .noParen hparen
      · exact .noName hcut hname
  descriptor_iff text e := by
    rw [parse_eq_iff]
    constructor
    · intro h
      cases h with
      | noDescriptor hcut hne hblank hrest => exact ⟨_, hcut, hne, hblank, hrest⟩
    · rintro ⟨name, hcut, hne, hblank, hrest⟩
      exact .noDescriptor hcut hne hblank hrest
  display_inj text text' m m' h h' hdisplay := by
    -- Each is what its printed form is read as.
    obtain ⟨rfl, -⟩ := parse_eq_ok_iff.1 h
    obtain ⟨rfl, -⟩ := parse_eq_ok_iff.1 h'
    rw [hdisplay, h'] at h
    exact Except.ok.inj h.symm

/-- A parenthesis in the name of a class does not matter, and one that closes may be part of
    the name of a method. -/
example : parse "run)(La(b;)V" = .ok ⟨"run)", "(La(b;)V"⟩ ∧
    parse "r un(" = .error (.signature "r un(") ∧ parse "run(I" = .error (.descriptor "(I") := by
  decide +kernel

end Signature

end Openness
