import Openness.Proofs.Entries
import Openness.Proofs.Format.RoundTrip

/-!
# No line too many

A written set has one line for each place in which something is asked, a slot of a class,
and none of the lines can be left out (`Format.write_irredundant`). What a set says has no
place twice (`TransformSet.nodup_places`), so no directive makes up for another one
(`TransformSet.follow_eraseIdx_ne`). That no two of them have the same line comes of
reading: a line that can be read as two directives would be read as both
(`Format.Directive.Writable.eq_of_chars_eq`).
-/

namespace Openness

namespace Format.Directive

/-- Where a directive asks for something: the class and the slot. -/
def place (d : Directive) : String × Slot := (d.className, d.slot)

/-- Different directives have different lines, if they can be written. -/
theorem Writable.eq_of_chars_eq {d d' : Directive} (h : d.Writable) (h' : d'.Writable)
    {names : ClassNames} (heq : d.chars names = d'.chars names) : d = d' := by
  have hparse := parse_chars h names
  rw [heq, parse_chars h' names] at hparse
  cases hparse
  rfl

end Format.Directive

namespace TransformSet

open Format (Directive)

/-- A set says one thing about a place. -/
theorem nodup_places (s : TransformSet) : (s.directives.map Directive.place).Nodup := by
  rw [directives_eq, List.map_flatMap, List.nodup_flatMap]
  constructor
  · intro e _
    have hslots := e.2.nodup_entries.map (Prod.mk_right_injective e.1)
    rw [List.map_map] at hslots ⊢
    exact hslots
  · -- Different classes have no place in common.
    refine (List.pairwise_map.1 s.contents.nodup_keys).imp fun {e e'} hne p hp hp' => ?_
    simp only [List.map_map, List.mem_map] at hp hp'
    obtain ⟨_, -, rfl⟩ := hp
    obtain ⟨_, -, hplace⟩ := hp'
    exact hne (congrArg Prod.fst hplace).symm

/-- A set says something about the places in which something is asked. -/
theorem mem_places {s : TransformSet} {n : String} {slot : Slot} :
    (n, slot) ∈ s.directives.map Directive.place ↔ s.get n slot ≠ .neutral := by
  rw [List.mem_map]
  constructor
  · rintro ⟨d, hd, hplace⟩
    obtain ⟨hget, ht⟩ := mem_directives.1 hd
    cases hplace
    exact hget.trans_ne ht
  · intro hget
    exact ⟨⟨s.get n slot, n, slot⟩, mem_directives.2 ⟨rfl, hget⟩, rfl⟩

/-- Without one of the directives, the others make up another set, if no two of them are
    about one place. -/
theorem follow_eraseIdx_ne {ds : List Directive} (hds : ∀ d ∈ ds, d.transform ≠ .neutral)
    (hplaces : (ds.map Directive.place).Nodup) {i : Nat} (hi : i < ds.length) :
    (follow ∅ (ds.eraseIdx i) == follow ∅ ds) = false := by
  refine Bool.eq_false_iff.2 fun heq => ?_
  have hget := (beq_iff_get.1 heq).2 ds[i].className ds[i].slot
  have hasked : (follow ∅ ds).get ds[i].className ds[i].slot ≠ .neutral := by
    intro hneutral
    have hle := (get_follow_le_iff.1 hneutral.le).2 ds[i] (List.getElem_mem hi) rfl rfl
    exact hds ds[i] (List.getElem_mem hi) (Transform.le_neutral_iff.1 hle)
  -- Another directive would have to ask for something in that place.
  obtain ⟨d, hd, hname, hslot⟩ := exists_mem_of_get_follow_ne (hget.trans_ne hasked)
  obtain ⟨j, hj, hne, rfl⟩ := List.mem_eraseIdx_iff_getElem.1 hd
  have hplace : ds[j].place = ds[i].place := Prod.ext hname hslot
  have hsame : ds[j] = ds[i] :=
    List.inj_on_of_nodup_map hplaces (List.getElem_mem hj) (List.getElem_mem hi) hplace
  exact hne (hplaces.of_map.getElem_inj_iff.1 hsame)

end TransformSet

namespace Format

open TransformSet (follow)

/-- The line for a place of a set. -/
def placeLine (names : ClassNames) (s : TransformSet) (p : String × Slot) : List Char :=
  Directive.chars names ⟨s.get p.1 p.2, p.1, p.2⟩

/-- What a set says is written as the line of its place. -/
theorem placeLine_place {names : ClassNames} {s : TransformSet} {d : Directive}
    (hd : d ∈ s.directives) : placeLine names s d.place = d.chars names := by
  show Directive.chars names ⟨s.get d.className d.slot, d.className, d.slot⟩ = _
  rw [(TransformSet.mem_directives.1 hd).1]

/-- The lines of a written set, of which none can be left out. -/
structure Irredundant (settings : Settings) (s : TransformSet) (ls : List (List Char)) : Prop where
  /-- The text is made of the lines, with a newline behind each of them. -/
  text : write settings s = Text.terminated ls
  /-- There is no other newline. -/
  unbroken : ∀ l ∈ ls, '\n' ∉ l
  /-- There is one line for each place in which something is asked. -/
  places : ∃ ps : List (String × Slot), ps.Nodup ∧
    (∀ n slot, (n, slot) ∈ ps ↔ s.get n slot ≠ .neutral) ∧
      ls = ps.map (placeLine settings.classNames s)
  /-- No two lines are equal. -/
  nodup : ls.Nodup
  /-- Without one of its lines, the text is read as another set. -/
  needed : ∀ (reading : Settings), ∀ i < ls.length, ∃ t u,
    (parse reading (Text.terminated (ls.eraseIdx i))).result = .ok t ∧
      (parse reading (write settings s)).result = .ok u ∧ (t == u) = false

/-- A set is written without a line too many, if its classes can be written, those aside
    that nothing is asked of. -/
theorem write_irredundant {s : TransformSet}
    (h : ∀ c ∈ s.classes.toList, c.transforms.isEmpty = false → c.Writable) (settings : Settings) :
    ∃ ls, Irredundant settings s ls := by
  have hds : ∀ d ∈ s.directives, d.Writable := directives_writable_iff.2 h
  refine ⟨s.directives.map (Directive.chars settings.classNames), write_eq settings s, ?_, ?_, ?_,
    fun reading i hi => ?_⟩
  · intro l hl
    obtain ⟨d, hd, rfl⟩ := List.mem_map.1 hl
    exact ((hds d hd).chars_unbroken _).1
  · refine ⟨s.directives.map Directive.place, s.nodup_places, fun _ _ =>
      TransformSet.mem_places, ?_⟩
    rw [List.map_map]
    exact List.map_congr_left fun d hd => (placeLine_place hd).symm
  · refine s.nodup_places.of_map.map_on fun d hd d' hd' heq => ?_
    exact (hds d hd).eq_of_chars_eq (hds d' hd') heq
  · rw [List.length_map] at hi
    have hothers : ∀ d ∈ s.directives.eraseIdx i, d.Writable :=
      fun d hd => hds d (List.mem_of_mem_eraseIdx hd)
    refine ⟨follow ∅ (s.directives.eraseIdx i), follow ∅ s.directives, ?_, ?_, ?_⟩
    · rw [List.eraseIdx_map, parse_terminated hothers]
    · rw [parse_write hds]
    · exact TransformSet.follow_eraseIdx_ne (fun d hd => (hds d hd).transform) s.nodup_places hi

/-- A class with a line of each kind, and one without lines and without a name that could be
    written. -/
def sparse : TransformSet :=
  (((((∅ : TransformSet).join "a/B" .own ⟨.toPublic, .keep⟩).join
    "a/B" .allFields ⟨.keep, .remove⟩).join
    "a/B" (.field "x") ⟨.keep, .remove⟩).join
    "a/B" .allMethods ⟨.toProtected, .add⟩).join
    "a/B" (.method ⟨"run", "(La/B;)V"⟩) ⟨.toPrivate, .keep⟩ |>.touch "no name"

/-- Even a field that is asked for what all fields are has a line that is needed. -/
theorem sparse_irredundant :
    write { classNames := .binary } sparse =
        "public a.B\n-f a.B *\n-f a.B x\nprotected+f a.B *()\nprivate a.B run(La/B;)V\n" ∧
      ∃ ls, Irredundant { classNames := .binary } sparse ls := by
  -- The set is read back from its text, so that all of it can be written.
  have hread : (parse {} (write {} sparse)).result = .ok sparse.trim :=
    Reading.result_eq_ok (by decide +kernel)
  obtain ⟨ds, hds, ht⟩ := exists_directives_of_readLines hread
  have hget (n : String) (slot : Slot) : (follow ∅ ds).get n slot = sparse.get n slot := by
    rw [← ht, TransformSet.get_trim]
  refine ⟨by decide +kernel, write_irredundant ?_ _⟩
  exact directives_writable_iff.1 (writable_of_follow hds hget)

end Format

end Openness
