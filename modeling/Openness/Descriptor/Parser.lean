import Openness.Descriptor

/-!
# Parsing descriptors

A scanner reads one item from the front of a text and leaves a shorter one
(`FieldType.scan`, `FieldType.scanParams`). A text is a descriptor if scanning
takes it whole (`FieldType.parse`, `MethodType.parse`), and is refused as a whole
otherwise.
-/

namespace Openness

/-- A text that is refused. -/
inductive Refusal where
  /-- The text is no descriptor. -/
  | descriptor (text : String)
  /-- The text is no method signature. -/
  | signature (text : String)
  deriving DecidableEq, Repr

/-- What is said about a refused text. -/
def Refusal.message : Refusal → String
  | descriptor text => "invalid descriptor: " ++ text
  | signature text => "invalid method signature: " ++ text

/-! ## Scanners -/

/-- Reads an element type from the front of a text. -/
def ElementType.scan : List Char → Option (ElementType × List Char)
  | [] => none
  | 'L' :: cs =>
    let name := cs.takeWhile (· != ';')
    match cs.dropWhile (· != ';') with
    | [] => none
    | _ :: rest => if name.isEmpty then none else some (object (String.ofList name), rest)
  | c :: cs => (Primitive.ofCode? c).map fun p => (primitive p, cs)

/-- Reads a field type from the front of a text. -/
def FieldType.scan (cs : List Char) : Option (FieldType × List Char) :=
  let dims := (cs.takeWhile (· = '[')).length
  if maxDims < dims then none
  else (ElementType.scan (cs.drop dims)).map fun (e, rest) => (⟨dims, e⟩, rest)

theorem ElementType.scan_shorter {cs rest : List Char} {e : ElementType}
    (h : scan cs = some (e, rest)) : rest.length < cs.length := by
  unfold scan at h
  split at h
  · cases h
  · rename_i cs
    split at h
    · cases h
    · rename_i hd
      dsimp only at h
      split at h
      · cases h
      · cases h
        have := (List.dropWhile_suffix (l := cs) (· != ';')).length_le
        rw [hd] at this
        simp only [List.length_cons] at this ⊢
        omega
  · simp only [Option.map_eq_some_iff, Prod.mk.injEq] at h
    obtain ⟨_, _, _, rfl⟩ := h
    simp

theorem FieldType.scan_shorter {cs rest : List Char} {t : FieldType}
    (h : scan cs = some (t, rest)) : rest.length < cs.length := by
  simp only [scan] at h
  split at h
  · cases h
  · simp only [Option.map_eq_some_iff, Prod.mk.injEq] at h
    obtain ⟨_, he, _, rfl⟩ := h
    have := ElementType.scan_shorter he
    simp only [List.length_drop] at this
    omega

/-- Reads field types up to a closing parenthesis, and that as well. -/
def FieldType.scanParams (cs : List Char) : Option (List FieldType × List Char) :=
  if cs.head? = some ')' then some ([], cs.tail)
  else
    match _h : scan cs with
    | none => none
    | some (t, rest) => (scanParams rest).map fun (ts, rest) => (t :: ts, rest)
termination_by cs.length
decreasing_by exact scan_shorter ‹_›

/-! ## Texts -/

/-- The field type that a text is the descriptor of. -/
def FieldType.ofChars? (cs : List Char) : Option FieldType :=
  match scan cs with
  | some (t, []) => some t
  | _ => none

/-- The result that a text is the descriptor of. -/
def ResultType.ofChars? (cs : List Char) : Option ResultType :=
  if cs = ['V'] then some .void else (FieldType.ofChars? cs).map .value

/-- The method type that a text is the descriptor of. -/
def MethodType.ofChars? : List Char → Option MethodType
  | '(' :: cs =>
    match FieldType.scanParams cs with
    | some (params, rest) => (ResultType.ofChars? rest).map (⟨params, ·⟩)
    | none => none
  | _ => none

/-- The field type that a text is the descriptor of. -/
def FieldType.parse (text : String) : Except Refusal FieldType :=
  match ofChars? text.toList with
  | some t => .ok t
  | none => .error (.descriptor text)

/-- The method type that a text is the descriptor of. -/
def MethodType.parse (text : String) : Except Refusal MethodType :=
  match ofChars? text.toList with
  | some m => .ok m
  | none => .error (.descriptor text)

end Openness
