import Mathlib.Data.List.Forall2
import Openness.Proofs.Descriptors
import Openness.Proofs.Remap.Nested
import Openness.Renamer

/-!
# Substitution in descriptors

A type is another one with new class names in it if the two have the same structure, and
each name is the answer for the name in its place or, where there is no answer, that name
itself (`MethodType.Substituted`). There is one such type for given answers
(`MethodType.substituted_iff`).

A renamer that goes by its names of classes in descriptors does nothing else to them
(`descriptors_substituted`): a descriptor is read afterwards as the type with the new names
in it, if these can stand in a descriptor, and a text that is no descriptor stays. A new
name may hold anything but the mark of its end, also what begins a type somewhere else.

The new names that a table gives can stand in a descriptor if those of its entries can
(`RenameTable.Describable.newClass`), although that of a nested class is no name of an
entry.
-/

namespace Openness

/-! ## Types under new names -/

section Substituted

variable (f : String → Option String)

/-- The second type is the first one with a new class name, if there is one. -/
inductive ElementType.Substituted : ElementType → ElementType → Prop
  | primitive (p : Primitive) : Substituted (.primitive p) (.primitive p)
  | answered {n n' : String} : f n = some n' → Substituted (.object n) (.object n')
  | kept {n : String} : f n = none → Substituted (.object n) (.object n)

/-- The second type is the first one with a new class name below as many array
    dimensions. -/
structure FieldType.Substituted (t u : FieldType) : Prop where
  dims : u.dims = t.dims
  element : t.element.Substituted f u.element

/-- The second result is the first one with a new class name, if there is one. -/
inductive ResultType.Substituted : ResultType → ResultType → Prop
  | void : Substituted .void .void
  | value {t u : FieldType} : t.Substituted f u → Substituted (.value t) (.value u)

/-- The second type is the first one with new class names: it has as many parameters, in
    the same order, and the same kind of result. -/
structure MethodType.Substituted (m w : MethodType) : Prop where
  params : List.Forall₂ (FieldType.Substituted f) m.params w.params
  result : m.result.Substituted f w.result

variable {f}

/-! There is one type with the new names: that in which they were replaced. -/

theorem ElementType.substituted_iff {e e' : ElementType} :
    e.Substituted f e' ↔ e.rename f = e' := by
  constructor
  · intro h
    cases h with
    | primitive p => rfl
    | answered h => simp only [rename, h, Option.getD_some]
    | kept h => simp only [rename, h, Option.getD_none]
  · rintro rfl
    cases e with
    | primitive p => exact .primitive p
    | object n =>
      rw [rename]
      cases h : f n with
      | none => exact .kept h
      | some n' => exact .answered h

theorem FieldType.substituted_iff {t u : FieldType} : t.Substituted f u ↔ t.rename f = u := by
  constructor
  · rintro ⟨hdims, helement⟩
    rw [rename, ElementType.substituted_iff.1 helement, ← hdims]
  · rintro rfl
    exact ⟨rfl, ElementType.substituted_iff.2 rfl⟩

theorem ResultType.substituted_iff {r r' : ResultType} :
    r.Substituted f r' ↔ r.rename f = r' := by
  constructor
  · intro h
    cases h with
    | void => rfl
    | value h => exact congrArg value (FieldType.substituted_iff.1 h)
  · rintro rfl
    cases r with
    | void => exact .void
    | value t => exact .value (FieldType.substituted_iff.2 rfl)

theorem MethodType.substituted_iff {m w : MethodType} :
    m.Substituted f w ↔ m.rename f = w := by
  -- Parameters correspond one by one if they are those in which names were replaced.
  have hparams {ts us : List FieldType} :
      List.Forall₂ (FieldType.Substituted f) ts us ↔ ts.map (·.rename f) = us := by
    have hfield : FieldType.Substituted f = fun t u => t.rename f = u :=
      funext fun t => funext fun u => propext FieldType.substituted_iff
    rw [hfield, ← List.forall₂_map_left_iff (R := Eq), List.forall₂_eq_eq_eq]
  constructor
  · rintro ⟨hps, hresult⟩
    rw [rename, hparams.1 hps, ResultType.substituted_iff.1 hresult]
  · rintro rfl
    exact ⟨hparams.2 rfl, ResultType.substituted_iff.2 rfl⟩

end Substituted

/-! ## New names of a table -/

namespace RenameTable

variable {t : RenameTable} {n n' : String}

/-- The new names that a table has for classes by their own entries can stand in
    descriptors. -/
def Describable (t : RenameTable) : Prop :=
  ∀ c, ∀ renamed ∈ t.ownNames c, renamed ≠ "" ∧ ';' ∉ renamed.toList

/-- A new name is not empty, as it begins with that of an entry. -/
theorem Describable.newClass_ne_empty (ht : t.Describable) (h : t.newClass n = some n') :
    n' ≠ "" := by
  obtain ⟨outer, rest, renamed, hinnermost, rfl⟩ := newClass_eq_some_iff.1 h
  intro hempty
  exact (ht outer renamed hinnermost.named).1 (String.append_eq_empty_iff.1 hempty).1

/-- A name that can stand in a descriptor can do so after it was renamed. -/
theorem Describable.newClass (ht : t.Describable) (hn : (ElementType.object n).WellFormed)
    (h : t.newClass n = some n') : (ElementType.object n').WellFormed := by
  refine ⟨ht.newClass_ne_empty h, fun hend => ?_⟩
  obtain ⟨outer, rest, renamed, hinnermost, rfl⟩ := newClass_eq_some_iff.1 h
  rw [String.toList_append, List.mem_append] at hend
  rcases hend with hend | hend
  · exact (ht outer renamed hinnermost.named).2 hend
  · -- The rest of the name was in the descriptor before.
    exact hn.2 (hinnermost.encloses.append ▸ List.mem_append_right _ hend)

end RenameTable

/-! ## Descriptors -/

/-- `rewrite` puts new class names into descriptors and does nothing else. -/
structure SubstitutesNames (f : String → Option String) (rewrite : String → String) :
    Prop where
  /-- A text that is no descriptor stays. -/
  other : ∀ text e, MethodType.parse text = .error e → rewrite text = text
  /-- A descriptor becomes that of its type under the new names, if these can stand in a
      descriptor. -/
  descriptor : ∀ text m, MethodType.parse text = .ok m →
    (∀ n ∈ m.names, ∀ n' ∈ f n, n' ≠ "" ∧ ';' ∉ n'.toList) →
      ∃ w, MethodType.parse (rewrite text) = .ok w ∧ m.Substituted f w

theorem substitutesNames_renameDescriptor (f : String → Option String) :
    SubstitutesNames f (renameDescriptor f) where
  other text e h := by
    rw [MethodType.parse] at h
    rw [renameDescriptor]
    cases hread : MethodType.ofChars? text.toList with
    | none => rfl
    | some m =>
      rw [hread] at h
      cases h
  descriptor text m h hnames := by
    refine ⟨m.rename f, ?_, MethodType.substituted_iff.2 rfl⟩
    obtain ⟨-, hm⟩ := (MethodType.readsPrinted.ok_iff _ _).1 h
    exact (MethodType.readsPrinted.ok_iff _ _).2 ⟨renameDescriptor_of_parse h, hm.rename hnames⟩

/-- Descriptors under new class names have these in place of the old ones, and are the same
    otherwise. That the new names can stand in a descriptor is the case for any table of
    names that can. -/
theorem descriptors_substituted :
    (∀ r : Renamer, (∀ d, r.newDescriptor d = renameDescriptor r.newClass d) →
      SubstitutesNames r.newClass r.newDescriptor) ∧
    ∀ t : RenameTable, t.Describable → ∀ text m, MethodType.parse text = .ok m →
      (∀ n ∈ m.names, ∀ n' ∈ t.renamer.newClass n, n' ≠ "" ∧ ';' ∉ n'.toList) ∧
        ∃ w, MethodType.parse (t.renamer.newDescriptor text) = .ok w ∧
          m.Substituted t.renamer.newClass w := by
  constructor
  · intro r hr
    rw [show r.newDescriptor = renameDescriptor r.newClass from funext hr]
    exact substitutesNames_renameDescriptor r.newClass
  · intro t ht text m h
    have hm := ((MethodType.readsPrinted.ok_iff _ _).1 h).2
    have hnames : ∀ n ∈ m.names, ∀ n' ∈ t.newClass n, n' ≠ "" ∧ ';' ∉ n'.toList :=
      fun n hn n' hn' => ht.newClass (hm.of_mem_names n hn) hn'
    exact ⟨hnames, (substitutesNames_renameDescriptor t.newClass).descriptor text m h hnames⟩

/-- A class gets a name that looks like a descriptor itself. -/
def bracketing : RenameTable := .addAll ∅ [.ofClass "a" "(I)[V"]

theorem bracketing_describable : bracketing.Describable := by
  intro c renamed hrenamed
  rw [bracketing, RenameTable.ownNames_addAll] at hrenamed
  simp only [Rename.lastFor, Rename.subject, List.reverse_singleton, List.find?_singleton] at hrenamed
  split at hrenamed
  · cases hrenamed
    decide
  · cases hrenamed

/-- The class below an array, nested in its own name and as a result, with other types. -/
def bracketed : MethodType :=
  ⟨[⟨2, .object "a"⟩, ⟨0, .primitive .int⟩, ⟨0, .object "b"⟩, ⟨0, .object "a$1"⟩],
    .value ⟨0, .object "a"⟩⟩

/-- The new name is read as a name wherever it stands. -/
theorem bracketing_substituted :
    bracketing.Describable ∧
      MethodType.parse "([[La;ILb;La$1;)La;" = .ok bracketed ∧
      SubstitutesNames bracketing.renamer.newClass bracketing.renamer.newDescriptor ∧
      bracketing.renamer.newDescriptor "([[La;ILb;La$1;)La;" =
        "([[L(I)[V;ILb;L(I)[V$1;)L(I)[V;" ∧
      ∃ w, MethodType.parse "([[L(I)[V;ILb;L(I)[V$1;)L(I)[V;" = .ok w ∧
        bracketed.Substituted bracketing.renamer.newClass w := by
  have hread : MethodType.parse "([[La;ILb;La$1;)La;" = .ok bracketed := by decide +kernel
  have hrewritten : bracketing.renamer.newDescriptor "([[La;ILb;La$1;)La;" =
      "([[L(I)[V;ILb;L(I)[V$1;)L(I)[V;" := by decide +kernel
  refine ⟨bracketing_describable, hread, descriptors_substituted.1 _ fun _ => rfl, hrewritten, ?_⟩
  rw [← hrewritten]
  exact (descriptors_substituted.2 bracketing bracketing_describable _ bracketed hread).2

end Openness
