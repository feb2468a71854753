import Openness.Descriptor.Parser
import Openness.SortedMap
import Openness.Text.Words

/-!
# Method signatures

A method is known by its name together with its descriptor. The descriptor is
kept as a text: a signature may be made of any two texts, and `Signature.parse`
is what insists on a proper name and descriptor. Signatures are ordered by name
and then by descriptor.
-/

namespace Openness

/-- The name and the descriptor of a method. -/
structure Signature where
  /-- The name. -/
  name : String
  /-- The descriptor, as a text. -/
  descriptor : String
  deriving DecidableEq, Hashable, Repr

namespace Signature

/-- By name, then by descriptor. -/
instance : Ord Signature := ⟨compareLex (compareOn name) (compareOn descriptor)⟩

instance : Std.TransOrd Signature :=
  inferInstanceAs (Std.TransCmp (compareLex (compareOn name) (compareOn descriptor)))

instance : Std.LawfulEqOrd Signature where
  compare_self := Std.ReflCmp.compare_self
  eq_of_compare {a b} h := by
    obtain ⟨hn, hd⟩ := compareLex_eq_eq.1 h
    have hn := Std.LawfulEqOrd.eq_of_compare hn
    have hd := Std.LawfulEqOrd.eq_of_compare hd
    cases a
    cases b
    exact congr (congrArg Signature.mk hn) hd

instance : Key Signature where

/-- A signature as a text: the name, then the descriptor. -/
def display (s : Signature) : String := s.name ++ s.descriptor

/-- Whether this is a constructor or the initializer of a class. -/
def isInitializer (s : Signature) : Bool := s.name = "<init>" || s.name = "<clinit>"

/-- A method name that a line of text can hold before a descriptor: it has
    characters, none of them a blank. -/
def isName (cs : List Char) : Bool := !cs.isEmpty && cs.all (!Text.isBlank ·)

/-- The signature that a text stands for. The descriptor starts at the first
    parenthesis. -/
def parse (text : String) : Except Refusal Signature :=
  let name := text.toList.takeWhile (· != '(')
  let descriptor := text.toList.dropWhile (· != '(')
  if descriptor.isEmpty || !isName name then .error (.signature text)
  else
    match MethodType.parse (String.ofList descriptor) with
    | .ok _ => .ok ⟨String.ofList name, String.ofList descriptor⟩
    | .error e => .error e

end Signature

end Openness
