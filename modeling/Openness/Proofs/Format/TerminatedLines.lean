import Mathlib.Logic.Basic
import Openness.Text.Lines
import Openness.Text.Separators

/-!
# Lines of an encoded text

Cutting the bytes of a text into lines and cutting the text itself come to the
same: a byte below 128 stands for a character of its own wherever it is found
(`mem_encode_iff`), so a newline is never a part of another character.

* `lines_append_newline`: a newline ends a line, whatever follows;
* `lines_encode_terminated`: lines that are written with a newline behind each
  of them are read back.
-/

namespace Openness.Text

/-! ## Bytes of characters -/

/-- A byte below 128 comes from the character of that number only. -/
theorem toNat_eq_of_mem_utf8EncodeChar {c : Char} {b : UInt8}
    (h : b ∈ String.utf8EncodeChar c) (hb : b.toNat < 128) : c.toNat = b.toNat := by
  have hc : c.val.toNat = c.toNat := rfl
  unfold String.utf8EncodeChar at h
  simp only [hc] at h
  -- Every byte of a longer encoding carries its leading bits, which are at
  -- least 128.
  split at h
  · rw [List.mem_singleton] at h
    subst h
    rw [UInt8.toNat_ofNat']
    omega
  · exfalso
    split at h
    · simp only [List.mem_cons, List.not_mem_nil, or_false] at h
      rcases h with rfl | rfl <;> rw [UInt8.toNat_ofNat'] at hb <;> omega
    · split at h
      · simp only [List.mem_cons, List.not_mem_nil, or_false] at h
        rcases h with rfl | rfl | rfl <;> rw [UInt8.toNat_ofNat'] at hb <;> omega
      · simp only [List.mem_cons, List.not_mem_nil, or_false] at h
        rcases h with rfl | rfl | rfl | rfl <;> rw [UInt8.toNat_ofNat'] at hb <;> omega

/-- A text holds a character below 128 exactly if its bytes hold that of the
    character. -/
theorem mem_encode_iff {cs : List Char} {c : Char} (hc : c.toNat < 128) :
    UInt8.ofNat c.toNat ∈ encode (String.ofList cs) ↔ c ∈ cs := by
  have hb : (UInt8.ofNat c.toNat).toNat = c.toNat := by
    rw [UInt8.toNat_ofNat']
    omega
  rw [encode_ofList, List.mem_flatMap]
  constructor
  · rintro ⟨d, hd, h⟩
    have := toNat_eq_of_mem_utf8EncodeChar h (hb.symm ▸ hc)
    rw [hb, Char.toNat_inj] at this
    exact this ▸ hd
  · intro h
    refine ⟨c, h, ?_⟩
    have : c.val.toNat ≤ 0x7f := Nat.le_of_lt_succ hc
    rw [String.utf8EncodeChar, if_pos this]
    exact List.mem_singleton_self _

theorem newline_mem_encode_iff {cs : List Char} :
    newline ∈ encode (String.ofList cs) ↔ '\n' ∈ cs :=
  mem_encode_iff (c := '\n') (by decide)

theorem carriageReturn_mem_encode_iff {cs : List Char} :
    carriageReturn ∈ encode (String.ofList cs) ↔ '\r' ∈ cs :=
  mem_encode_iff (c := '\r') (by decide)

theorem encode_append (cs ds : List Char) :
    encode (String.ofList (cs ++ ds)) = encode (String.ofList cs) ++ encode (String.ofList ds) := by
  rw [encode_ofList, encode_ofList, encode_ofList, List.flatMap_append]

/-! ## Lines -/

@[simp] theorem lines_nil : lines [] = [] := by
  rw [lines]
  rfl

/-- A newline ends a line, whatever follows. -/
theorem lines_append_newline {l : List UInt8} (h : newline ∉ l) (rest : List UInt8) :
    lines (l ++ newline :: rest) = dropReturn l :: lines rest := by
  have hdrop := dropWhile_append_separator h rest
  rw [lines, takeWhile_append_separator h]
  split
  · rename_i hnil
    rw [hdrop] at hnil
    cases hnil
  · rename_i hcons
    rw [hdrop] at hcons
    cases hcons
    rfl

/-- What follows the last newline is a line unless it is empty. -/
theorem lines_of_not_mem {l : List UInt8} (h : newline ∉ l) :
    lines l = if l = [] then [] else [l] := by
  rw [lines]
  split
  · simp
  · rename_i hcons
    rw [dropWhile_of_not_mem h] at hcons
    cases hcons

/-- What holds of a source without a newline, and of a line with a newline in front of a
    source of which it holds, holds of every source. -/
theorem lines_induction {P : List UInt8 → Prop} (last : ∀ l, newline ∉ l → P l)
    (cons : ∀ l rest, newline ∉ l → P rest → P (l ++ newline :: rest)) (bytes : List UInt8) :
    P bytes := by
  by_cases h : newline ∈ bytes
  · obtain ⟨l, rest, hbytes, hl⟩ := List.eq_append_cons_of_mem h
    have : rest.length < bytes.length := by
      rw [hbytes, List.length_append, List.length_cons]
      omega
    exact hbytes ▸ cons l rest hl (lines_induction last cons rest)
  · exact last bytes h
termination_by bytes.length

theorem dropReturn_of_not_mem {l : List UInt8} (h : carriageReturn ∉ l) : dropReturn l = l :=
  if_neg fun hlast => h (List.mem_of_getLast? hlast)

/-- The text of lines with a newline behind each of them. -/
def terminated (ls : List (List Char)) : String := String.ofList (ls.flatMap (· ++ ['\n']))

/-- Lines with a newline behind each of them are the lines of the whole. -/
theorem lines_encode_terminated {ls : List (List Char)}
    (h : ∀ l ∈ ls, '\n' ∉ l ∧ '\r' ∉ l) :
    lines (encode (String.ofList (ls.flatMap (· ++ ['\n'])))) =
      ls.map fun l => encode (String.ofList l) := by
  induction ls with
  | nil => exact lines_nil
  | cons l ls ih =>
    obtain ⟨⟨hn, hr⟩, h⟩ := List.forall_mem_cons.1 h
    have hbytes : encode (String.ofList ((l :: ls).flatMap (· ++ ['\n']))) =
        encode (String.ofList l) ++
          newline :: encode (String.ofList (ls.flatMap (· ++ ['\n']))) := by
      rw [List.flatMap_cons, encode_append, encode_append, List.append_assoc]
      rfl
    rw [hbytes, lines_append_newline (newline_mem_encode_iff.not.2 hn),
      dropReturn_of_not_mem (carriageReturn_mem_encode_iff.not.2 hr), ih h, List.map_cons]

end Openness.Text
