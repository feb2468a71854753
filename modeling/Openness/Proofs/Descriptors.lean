import Mathlib.Logic.Basic
import Openness.Descriptor.Names
import Openness.Descriptor.RoundTrip

/-!
# What descriptor parsers accept

A text is a descriptor exactly if it is the printed form of a well-formed type, and
it is read as that type. Any other text is refused as a whole, with the text
itself as the reason (`ReadsPrinted`). This holds of field and of method
descriptors alike (`descriptors_read_printed`), so a descriptor says one type and is
the only one that does.

So a descriptor under new class names is known by its type under the new names
(`renameDescriptor_of_parse`):

* it is well-formed if the new names can stand in a descriptor
  (`MethodType.WellFormed.rename`);
* its characters are those of the old one and of the new names, or at least what holds of
  both holds of them (`MethodType.forall_chars_rename`);
* it goes back to the old one if the names in it do (`renameDescriptor_renameDescriptor`).
-/

namespace Openness

/-! ## Printed forms -/

/-- A parser reads the printed forms of well-formed values, each as the value that it
    is the form of, and refuses any other text as a whole. -/
structure ReadsPrinted {α : Type} (parse : String → Except Refusal α) (display : α → String)
    (WellFormed : α → Prop) : Prop where
  /-- A text is read as the well-formed value that it is the printed form of. -/
  ok_iff : ∀ text v, parse text = .ok v ↔ text = display v ∧ WellFormed v
  /-- A text is refused if it is the printed form of no such value. -/
  error_iff : ∀ text e, parse text = .error e ↔
    e = .descriptor text ∧ ¬∃ v, text = display v ∧ WellFormed v

/-- A parser of texts reads printed forms if it goes by a parser of characters that
    does. -/
theorem ReadsPrinted.of_chars {α : Type} {parse : String → Except Refusal α}
    {ofChars? : List Char → Option α} {chars : α → List Char} {WellFormed : α → Prop}
    (hparse : ∀ text, parse text =
      (ofChars? text.toList).elim (.error (.descriptor text)) .ok)
    (hchars : ∀ {cs v}, ofChars? cs = some v ↔ cs = chars v ∧ WellFormed v) :
    ReadsPrinted parse (fun v => String.ofList (chars v)) WellFormed := by
  have printed (text : String) (v : α) :
      text = String.ofList (chars v) ∧ WellFormed v ↔ ofChars? text.toList = some v := by
    rw [hchars, ← String.toList_inj, String.toList_ofList]
  constructor
  · intro text v
    rw [printed, hparse]
    cases ofChars? text.toList <;> simp
  · intro text e
    simp only [printed, hparse]
    cases ofChars? text.toList <;> simp [eq_comm]

theorem FieldType.readsPrinted : ReadsPrinted parse display WellFormed :=
  .of_chars (fun text => by rw [parse]; cases ofChars? text.toList <;> rfl) ofChars?_eq_some_iff

theorem MethodType.readsPrinted : ReadsPrinted parse display WellFormed :=
  .of_chars (fun text => by rw [parse]; cases ofChars? text.toList <;> rfl) ofChars?_eq_some_iff

/-- Field and method descriptors are the printed forms of well-formed types, and
    nothing else is accepted. -/
theorem descriptors_read_printed :
    ReadsPrinted FieldType.parse FieldType.display FieldType.WellFormed ∧
      ReadsPrinted MethodType.parse MethodType.display MethodType.WellFormed :=
  ⟨FieldType.readsPrinted, MethodType.readsPrinted⟩

/-! ## Replaced names -/

variable {f : String → Option String} {P : Char → Prop}

/-- The class name of a well-formed element type can stand in a descriptor. -/
theorem ElementType.WellFormed.of_mem_names {e : ElementType} (he : e.WellFormed) :
    ∀ n ∈ e.names, (object n).WellFormed := by
  cases e with
  | primitive p => exact fun _ hn => absurd hn List.not_mem_nil
  | object n => exact List.forall_mem_singleton.2 he

/-- The class names of a well-formed method type can stand in a descriptor. -/
theorem MethodType.WellFormed.of_mem_names {m : MethodType} (hm : m.WellFormed) :
    ∀ n ∈ m.names, (ElementType.object n).WellFormed := by
  intro n hn
  rcases List.mem_append.1 hn with hn | hn
  · obtain ⟨t, ht, hn⟩ := List.mem_flatMap.1 hn
    exact (hm.1 t ht).2.of_mem_names n hn
  · rcases m with ⟨params, _ | t⟩
    · exact absurd hn List.not_mem_nil
    · exact hm.2.2.of_mem_names n hn

/-- The characters of a class name are among those of its descriptor. -/
theorem MethodType.mem_chars_of_mem_names {m : MethodType} {n : String} (hn : n ∈ m.names)
    {c : Char} (hc : c ∈ n.toList) : c ∈ m.chars := by
  have element {e : ElementType} (hn : n ∈ e.names) : c ∈ e.chars := by
    cases e with
    | primitive p => exact absurd hn List.not_mem_nil
    | object m =>
      rw [List.mem_singleton.1 hn] at hc
      exact List.mem_cons_of_mem _ (List.mem_append_left _ hc)
  refine List.mem_cons_of_mem _ (List.mem_append.2 ?_)
  rcases List.mem_append.1 hn with hn | hn
  · obtain ⟨t, ht, hn⟩ := List.mem_flatMap.1 hn
    exact .inl (List.mem_flatMap.2 ⟨t, ht, List.mem_append_right _ (element hn)⟩)
  · rcases m with ⟨params, _ | t⟩
    · exact absurd hn List.not_mem_nil
    · exact .inr (List.mem_cons_of_mem _ (List.mem_append_right _ (element hn)))

theorem ElementType.WellFormed.rename {e : ElementType} (he : e.WellFormed)
    (hf : ∀ n ∈ e.names, ∀ n', f n = some n' → (object n').WellFormed) :
    (e.rename f).WellFormed := by
  cases e with
  | primitive p => trivial
  | object n =>
    rw [ElementType.rename]
    cases hn : f n with
    | none => exact he
    | some n' => exact hf n List.mem_cons_self n' hn

theorem FieldType.WellFormed.rename {t : FieldType} (ht : t.WellFormed)
    (hf : ∀ n ∈ t.element.names, ∀ n', f n = some n' → (ElementType.object n').WellFormed) :
    (t.rename f).WellFormed :=
  ⟨ht.1, ht.2.rename hf⟩

/-- A method type stays well-formed if its class names are replaced by names that can
    stand in a descriptor. -/
theorem MethodType.WellFormed.rename {m : MethodType} (hm : m.WellFormed)
    (hf : ∀ n ∈ m.names, ∀ n', f n = some n' → (ElementType.object n').WellFormed) :
    (m.rename f).WellFormed := by
  obtain ⟨hparams, hresult⟩ := hm
  constructor
  · intro u hu
    obtain ⟨t, ht, rfl⟩ := List.mem_map.1 hu
    exact (hparams t ht).rename fun n hn =>
      hf n (List.mem_append_left _ (List.mem_flatMap.2 ⟨t, ht, hn⟩))
  · rcases m with ⟨params, _ | t⟩
    · trivial
    · exact FieldType.WellFormed.rename hresult fun n hn => hf n (List.mem_append_right _ hn)

theorem ElementType.forall_chars_rename {e : ElementType} (he : ∀ c ∈ e.chars, P c)
    (hf : ∀ n ∈ e.names, ∀ n', f n = some n' → ∀ c ∈ n'.toList, P c) :
    ∀ c ∈ (e.rename f).chars, P c := by
  cases e with
  | primitive p => exact he
  | object n =>
    rw [rename]
    cases hn : f n with
    | none => exact he
    | some n' =>
      -- The name changes, and the marks around it stay.
      simp only [chars, List.forall_mem_cons, List.forall_mem_append] at he ⊢
      exact ⟨he.1, hf n List.mem_cons_self n' hn, he.2.2⟩

theorem FieldType.forall_chars_rename {t : FieldType} (ht : ∀ c ∈ t.chars, P c)
    (hf : ∀ n ∈ t.element.names, ∀ n', f n = some n' → ∀ c ∈ n'.toList, P c) :
    ∀ c ∈ (t.rename f).chars, P c := by
  rw [chars, List.forall_mem_append] at ht ⊢
  exact ⟨ht.1, ElementType.forall_chars_rename ht.2 hf⟩

/-- What holds of the characters of a method type and of the new class names holds
    of those of the type under the new names. -/
theorem MethodType.forall_chars_rename {m : MethodType} (hm : ∀ c ∈ m.chars, P c)
    (hf : ∀ n ∈ m.names, ∀ n', f n = some n' → ∀ c ∈ n'.toList, P c) :
    ∀ c ∈ (m.rename f).chars, P c := by
  simp only [chars, List.forall_mem_cons, List.forall_mem_append] at hm ⊢
  obtain ⟨hopen, hparams, hclose, hresult⟩ := hm
  refine ⟨hopen, fun c hc => ?_, hclose, ?_⟩
  · obtain ⟨u, hu, hc⟩ := List.mem_flatMap.1 hc
    obtain ⟨t, ht, rfl⟩ := List.mem_map.1 hu
    refine FieldType.forall_chars_rename (fun d hd => hparams d (List.mem_flatMap.2 ⟨t, ht, hd⟩))
      (fun n hn => ?_) c hc
    exact hf n (List.mem_append_left _ (List.mem_flatMap.2 ⟨t, ht, hn⟩))
  · rcases m with ⟨params, _ | t⟩
    · exact hresult
    · exact FieldType.forall_chars_rename hresult fun n hn => hf n (List.mem_append_right _ hn)

/-! ## Names replaced twice -/

variable {g : String → Option String}

/-- The names that come of two functions, one after the other. A name has a new one if either
    of them answers. -/
def followedBy (f g : String → Option String) (n : String) : Option String :=
  match f n with
  | some n' => some ((g n').getD n')
  | none => g n

theorem getD_followedBy (f g : String → Option String) (n : String) :
    (followedBy f g n).getD n = (g ((f n).getD n)).getD ((f n).getD n) := by
  rw [followedBy]
  cases f n <;> rfl

/-- Replacing names twice is replacing them by what comes of both. -/
theorem ElementType.rename_rename (f g : String → Option String) (e : ElementType) :
    (e.rename f).rename g = e.rename (followedBy f g) := by
  cases e with
  | primitive p => rfl
  | object n => exact congrArg object (getD_followedBy f g n).symm

theorem FieldType.rename_rename (f g : String → Option String) (t : FieldType) :
    (t.rename f).rename g = t.rename (followedBy f g) :=
  congrArg (FieldType.mk t.dims) (t.element.rename_rename f g)

theorem MethodType.rename_rename (f g : String → Option String) (m : MethodType) :
    (m.rename f).rename g = m.rename (followedBy f g) := by
  have hfield := funext (FieldType.rename_rename f g)
  rcases m with ⟨params, _ | t⟩
  · simp only [rename, List.map_map, ResultType.rename]
    exact congrArg (MethodType.mk · _) (congrArg (params.map ·) hfield)
  · simp only [rename, List.map_map, ResultType.rename]
    exact congr (congrArg MethodType.mk (congrArg (params.map ·) hfield))
      (congrArg ResultType.value (congrFun hfield t))

/-- A type stays as it is if its names are replaced by themselves. -/
theorem ElementType.rename_eq_self {e : ElementType} (h : ∀ n ∈ e.names, (f n).getD n = n) :
    e.rename f = e := by
  cases e with
  | primitive p => rfl
  | object n => exact congrArg object (h n List.mem_cons_self)

theorem FieldType.rename_eq_self {t : FieldType} (h : ∀ n ∈ t.element.names, (f n).getD n = n) :
    t.rename f = t :=
  congrArg (FieldType.mk t.dims) (ElementType.rename_eq_self h)

theorem MethodType.rename_eq_self {m : MethodType} (h : ∀ n ∈ m.names, (f n).getD n = n) :
    m.rename f = m := by
  have hparams : m.params.map (·.rename f) = m.params := by
    refine (List.map_congr_left fun t ht => ?_).trans (List.map_id _)
    exact FieldType.rename_eq_self fun n hn =>
      h n (List.mem_append_left _ (List.mem_flatMap.2 ⟨t, ht, hn⟩))
  have hresult : m.result.rename f = m.result := by
    rcases m with ⟨params, _ | t⟩
    · rfl
    · exact congrArg ResultType.value
        (FieldType.rename_eq_self fun n hn => h n (List.mem_append_right _ hn))
  rw [rename, hparams, hresult]

/-! ## Renamed descriptors -/

/-- The class names in a descriptor. A text that is no descriptor has none. -/
def descriptorNames (text : String) : List String :=
  match MethodType.ofChars? text.toList with
  | some m => m.names
  | none => []

/-- A descriptor under new class names. -/
theorem renameDescriptor_of_parse {text : String} {m : MethodType}
    (h : MethodType.parse text = .ok m) : renameDescriptor f text = (m.rename f).display := by
  obtain ⟨rfl, hm⟩ := (MethodType.readsPrinted.ok_iff _ _).1 h
  have : MethodType.ofChars? m.display.toList = some m :=
    MethodType.ofChars?_eq_some_iff.2 ⟨String.toList_ofList, hm⟩
  rw [renameDescriptor, this]

/-- A text stays as it is if the class names in it are replaced by themselves. A text that is
    no descriptor stays anyway. -/
theorem renameDescriptor_eq_self {text : String}
    (h : ∀ n ∈ descriptorNames text, (f n).getD n = n) : renameDescriptor f text = text := by
  rw [descriptorNames] at h
  rw [renameDescriptor]
  cases hread : MethodType.ofChars? text.toList with
  | none => rfl
  | some m =>
    rw [hread] at h
    show (m.rename f).display = text
    -- Printing gives back what was read.
    rw [MethodType.rename_eq_self h, MethodType.display,
      ← (MethodType.ofChars?_eq_some_iff.1 hread).1, String.ofList_toList]

/-- A text stays under new class names and back under the old ones, if the new names can stand
    in a descriptor: then it is read as what it was made of. A text that is no descriptor
    stays anyway. -/
theorem renameDescriptor_renameDescriptor {text : String}
    (hname : ∀ n ∈ descriptorNames text, ∀ n' ∈ f n, (ElementType.object n').WellFormed)
    (hback : ∀ n ∈ descriptorNames text, (g ((f n).getD n)).getD ((f n).getD n) = n) :
    renameDescriptor g (renameDescriptor f text) = text := by
  rw [descriptorNames] at hname hback
  cases h : MethodType.ofChars? text.toList with
  | none => simp only [renameDescriptor, h]
  | some m =>
    rw [h] at hname hback
    obtain ⟨htext, hm⟩ := MethodType.ofChars?_eq_some_iff.1 h
    have hrenamed : MethodType.ofChars? (m.rename f).display.toList = some (m.rename f) :=
      MethodType.ofChars?_eq_some_iff.2 ⟨String.toList_ofList, hm.rename hname⟩
    have hsame : (m.rename f).rename g = m := by
      rw [MethodType.rename_rename]
      exact MethodType.rename_eq_self fun n hn => (getD_followedBy f g n).trans (hback n hn)
    simp only [renameDescriptor, h, hrenamed, hsame]
    rw [MethodType.display, ← htext, String.ofList_toList]

end Openness
