import Openness.Access

/-!
# Transforms

A transform is what is asked of one class, field or method: an access level and
a change of the final flag. Transforms are joined part by part, with the
transform that asks for nothing (`Transform.neutral`) as the least one.
-/

namespace Openness

/-- What is asked of one class, field or method. -/
structure Transform where
  /-- The access level. -/
  access : Access := .keep
  /-- The change of the final flag. -/
  finality : Finality := .keep
  deriving DecidableEq, Hashable, Repr

namespace Transform

/-- The transform that asks for nothing. -/
def neutral : Transform := {}

instance : Inhabited Transform := ⟨neutral⟩

/-- Asks for the wider access level and the stronger change of the final
    flag. -/
instance : Max Transform :=
  ⟨fun s t => ⟨max s.access t.access, max s.finality t.finality⟩⟩

/-- Whether nothing is asked for. -/
def isNeutral (t : Transform) : Bool := t = neutral

/-- The flags as the transform wants them: the access level first, then the
    final flag. -/
def apply (t : Transform) (flags : Flags) : Flags :=
  t.finality.apply (t.access.apply flags) Flags.finalBit

/-- How a transform is written in a message. -/
def display (t : Transform) : String :=
  let access := if t.access = .keep then [] else ["access=" ++ t.access.label]
  let finality := if t.finality = .keep then [] else ["final=" ++ t.finality.label]
  match access ++ finality with
  | [] => "AccessTransform.EMPTY"
  | parts => "AccessTransform\x7b" ++ ", ".intercalate parts ++ "\x7d"

/-! ## The join -/

@[simp] theorem access_max (s t : Transform) : (max s t).access = max s.access t.access := rfl

@[simp] theorem finality_max (s t : Transform) :
    (max s t).finality = max s.finality t.finality := rfl

theorem max_comm (s t : Transform) : max s t = max t s := by
  rcases s with ⟨a, f⟩
  rcases t with ⟨b, g⟩
  cases a <;> cases b <;> cases f <;> cases g <;> rfl

theorem max_assoc (s t u : Transform) : max (max s t) u = max s (max t u) := by
  rcases s with ⟨a, f⟩
  rcases t with ⟨b, g⟩
  rcases u with ⟨c, h⟩
  have ha : max (max a b) c = max a (max b c) := by cases a <;> cases b <;> cases c <;> rfl
  have hf : max (max f g) h = max f (max g h) := by cases f <;> cases g <;> cases h <;> rfl
  exact congrArg (Transform.mk · _) ha |>.trans (congrArg (Transform.mk _) hf)

@[simp] theorem max_self (s : Transform) : max s s = s := by
  rcases s with ⟨a, f⟩
  cases a <;> cases f <;> rfl

@[simp] theorem max_neutral (s : Transform) : max s neutral = s := by
  rcases s with ⟨a, f⟩
  cases a <;> cases f <;> rfl

@[simp] theorem neutral_max (s : Transform) : max neutral s = s :=
  (max_comm ..).trans (max_neutral s)

/-- A join asks for nothing only if both sides do. -/
theorem max_eq_neutral {s t : Transform} : max s t = neutral ↔ s = neutral ∧ t = neutral := by
  rcases s with ⟨a, f⟩
  rcases t with ⟨b, g⟩
  cases a <;> cases b <;> cases f <;> cases g <;> decide

end Transform

end Openness
