import Openness.Descriptor.Parser

/-!
# Printing and parsing descriptors

Parsing undoes printing and accepts nothing else. A scanner reads back what was
printed in front of any other text, as a descriptor tells where it ends
(`FieldType.scan_chars`); and what a scanner reads is the printed form of a
well-formed type (`FieldType.eq_chars_of_scan`).

* `FieldType.ofChars?_eq_some_iff`, `MethodType.ofChars?_eq_some_iff`: a text
  stands for a type exactly if it is the printed form of the type and the type is
  well-formed.
-/

namespace Openness

/-! ## Scanners -/

theorem ElementType.scan_chars {e : ElementType} (he : e.WellFormed) (rest : List Char) :
    scan (e.chars ++ rest) = some (e, rest) := by
  cases e with
  | primitive p => cases p <;> rfl
  | object n =>
    obtain ⟨hne, hn⟩ := he
    have hall : ∀ c ∈ n.toList, (c != ';') = true := by
      simpa using fun c hc (e : c = ';') => hn (e ▸ hc)
    have htake : (n.toList ++ ';' :: rest).takeWhile (· != ';') = n.toList := by
      rw [List.takeWhile_append_of_pos hall]
      simp
    have hdrop : (n.toList ++ ';' :: rest).dropWhile (· != ';') = ';' :: rest := by
      rw [List.dropWhile_append_of_pos hall]
      simp
    have : n.toList ≠ [] := by simpa using hne
    simp [chars, scan, htake, hdrop, this]

theorem ElementType.eq_chars_of_scan {cs rest : List Char} {e : ElementType}
    (h : scan cs = some (e, rest)) : cs = e.chars ++ rest ∧ e.WellFormed := by
  unfold scan at h
  split at h
  · cases h
  · rename_i cs
    split at h
    · cases h
    · rename_i c r hd
      dsimp only at h
      split at h
      · cases h
      · rename_i hne
        cases h
        have hc : c = ';' := by
          have := List.head?_dropWhile_not (· != ';') cs
          rw [hd] at this
          simpa using this
        have hcs := List.takeWhile_append_dropWhile (p := (· != ';')) (l := cs)
        rw [hd, hc] at hcs
        refine ⟨?_, by simpa using hne, ?_⟩
        · rw [chars, String.toList_ofList]
          simpa using hcs.symm
        · rw [String.toList_ofList]
          intro hm
          have := List.all_takeWhile (p := (· != ';')) (l := cs)
          simp only [List.all_eq_true] at this
          simpa using this _ hm
  · simp only [Option.map_eq_some_iff, Prod.mk.injEq] at h
    obtain ⟨p, hp, rfl, rfl⟩ := h
    simp [chars, Primitive.code_of_ofCode? hp, WellFormed]

/-- No element type starts with the mark of an array. -/
theorem ElementType.head?_chars_ne (e : ElementType) (rest : List Char) :
    (e.chars ++ rest).head? ≠ some '[' := by
  cases e with
  | primitive p => cases p <;> simp [chars, Primitive.code]
  | object n => simp [chars]

theorem FieldType.scan_chars {t : FieldType} (ht : t.WellFormed) (rest : List Char) :
    scan (t.chars ++ rest) = some (t, rest) := by
  obtain ⟨dims, e⟩ := t
  obtain ⟨hd, he⟩ := ht
  have htake : ((List.replicate dims '[' ++ e.chars ++ rest).takeWhile (· = '[')).length = dims := by
    rw [List.append_assoc, List.takeWhile_append_of_pos (by simp)]
    have := e.head?_chars_ne rest
    cases hcs : e.chars ++ rest with
    | nil => simp
    | cons c cs =>
      rw [hcs] at this
      have : ¬c = '[' := by simpa using this
      simp [this]
  simp only [chars, scan, htake]
  rw [if_neg (by exact Nat.not_lt.2 hd), List.append_assoc, List.drop_left' (by simp),
    ElementType.scan_chars he]
  rfl

theorem FieldType.eq_chars_of_scan {cs rest : List Char} {t : FieldType}
    (h : scan cs = some (t, rest)) : cs = t.chars ++ rest ∧ t.WellFormed := by
  simp only [scan] at h
  split at h
  · cases h
  · rename_i hd
    simp only [Option.map_eq_some_iff, Prod.mk.injEq] at h
    obtain ⟨⟨e, r⟩, he, rfl, rfl⟩ := h
    obtain ⟨hcs, hwf⟩ := ElementType.eq_chars_of_scan he
    refine ⟨?_, Nat.not_lt.1 hd, hwf⟩
    have hrep : List.replicate (cs.takeWhile (· = '[')).length '[' = cs.takeWhile (· = '[') := by
      refine (List.eq_replicate_iff.2 ⟨rfl, fun c hc => ?_⟩).symm
      have := List.all_takeWhile (p := (· = '[')) (l := cs)
      simp only [List.all_eq_true] at this
      simpa using this c hc
    rw [chars, hrep, List.append_assoc, ← hcs]
    exact (List.prefix_iff_eq_append.1 (List.takeWhile_prefix _)).symm

/-- No field type starts with a closing parenthesis. -/
theorem FieldType.head?_chars_ne (t : FieldType) (rest : List Char) :
    (t.chars ++ rest).head? ≠ some ')' := by
  rcases t with ⟨dims, p | n⟩
  · cases dims <;> cases p <;> simp [chars, ElementType.chars, Primitive.code, List.replicate_succ]
  · cases dims <;> simp [chars, ElementType.chars, List.replicate_succ]

theorem FieldType.scanParams_of_scan {cs rest : List Char} {t : FieldType}
    (hcs : cs.head? ≠ some ')') (h : scan cs = some (t, rest)) :
    scanParams cs = (scanParams rest).map fun p => (t :: p.1, p.2) := by
  rw [scanParams, if_neg hcs]
  split
  · simp_all
  · simp_all

theorem FieldType.scanParams_chars {ts : List FieldType} (hts : ∀ t ∈ ts, t.WellFormed)
    (rest : List Char) :
    scanParams (ts.flatMap chars ++ ')' :: rest) = some (ts, rest) := by
  induction ts with
  | nil =>
    rw [scanParams]
    rfl
  | cons t ts ih =>
    rw [List.flatMap_cons, List.append_assoc, scanParams_of_scan (t.head?_chars_ne _)
      (scan_chars (hts t List.mem_cons_self) _), ih fun u hu => hts u (List.mem_cons_of_mem _ hu)]
    rfl

theorem FieldType.eq_chars_of_scanParams {cs rest : List Char} {ts : List FieldType}
    (h : scanParams cs = some (ts, rest)) :
    cs = ts.flatMap chars ++ ')' :: rest ∧ ∀ t ∈ ts, t.WellFormed := by
  fun_induction scanParams cs generalizing ts with
  | case1 cs hcs =>
    cases cs with
    | nil => simp at hcs
    | cons c cs =>
      simp only [List.head?_cons, Option.some.injEq] at hcs
      subst hcs
      cases h
      simp
  | case2 => cases h
  | case3 cs hcs t r hscan ih =>
    simp only [Option.map_eq_some_iff, Prod.mk.injEq, Prod.exists] at h
    obtain ⟨us, r', hus, rfl, rfl⟩ := h
    obtain ⟨hr, hwf⟩ := ih hus
    obtain ⟨hcs, ht⟩ := eq_chars_of_scan hscan
    exact ⟨by rw [hcs, hr, List.flatMap_cons, List.append_assoc], List.forall_mem_cons.2 ⟨ht, hwf⟩⟩

/-! ## Texts -/

theorem FieldType.ofChars?_eq_some_iff {cs : List Char} {t : FieldType} :
    ofChars? cs = some t ↔ cs = t.chars ∧ t.WellFormed := by
  constructor
  · intro h
    rw [ofChars?] at h
    split at h
    · rename_i hscan
      cases h
      simpa using eq_chars_of_scan hscan
    · cases h
  · rintro ⟨rfl, ht⟩
    have := scan_chars ht []
    rw [List.append_nil] at this
    rw [ofChars?, this]

theorem ResultType.ofChars?_eq_some_iff {cs : List Char} {r : ResultType} :
    ofChars? cs = some r ↔ cs = r.chars ∧ r.WellFormed := by
  -- The mark of no result is not the descriptor of a field.
  have hV (t : FieldType) : ¬(['V'] = t.chars ∧ t.WellFormed) := by
    rw [← FieldType.ofChars?_eq_some_iff, show FieldType.ofChars? ['V'] = none from rfl]
    simp
  rw [ofChars?]
  split
  · rename_i h
    subst h
    cases r with
    | void => simp [chars, WellFormed]
    | value t => simpa [chars, WellFormed] using hV t
  · rename_i h
    cases r with
    | void => simp [chars, h]
    | value t => simp [chars, WellFormed, FieldType.ofChars?_eq_some_iff]

theorem MethodType.ofChars?_eq_some_iff {cs : List Char} {m : MethodType} :
    ofChars? cs = some m ↔ cs = m.chars ∧ m.WellFormed := by
  constructor
  · intro h
    unfold ofChars? at h
    split at h
    · split at h
      · rename_i hparams
        obtain ⟨r, hr, rfl⟩ := Option.map_eq_some_iff.1 h
        obtain ⟨rfl, hwf⟩ := FieldType.eq_chars_of_scanParams hparams
        obtain ⟨rfl, hresult⟩ := ResultType.ofChars?_eq_some_iff.1 hr
        exact ⟨rfl, hwf, hresult⟩
      · cases h
    · cases h
  · rintro ⟨rfl, hparams, hresult⟩
    rw [chars, ofChars?, FieldType.scanParams_chars hparams]
    simp [ResultType.ofChars?_eq_some_iff.2 ⟨rfl, hresult⟩]

end Openness
