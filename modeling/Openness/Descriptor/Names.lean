import Openness.Descriptor.Parser

/-!
# Class names in descriptors

The class names in a type can be listed and replaced, from left to right. They
are replaced by a function (`MethodType.rename`) or by asking for every one of
them in any monad (`MethodType.renameM`); asking is for those who count the
questions. A name without an answer stays.
-/

namespace Openness

/-! ## Asking for names -/

section Names

variable {m : Type → Type} [Monad m]

/-- Asks for a name in place of the class name. -/
def ElementType.renameM (f : String → m (Option String)) : ElementType → m ElementType
  | primitive p => pure (primitive p)
  | object n => do return object ((← f n).getD n)

/-- Asks for a name in place of the class name. -/
def FieldType.renameM (f : String → m (Option String)) (t : FieldType) : m FieldType := do
  return { t with element := ← t.element.renameM f }

/-- Asks for a name in place of the class name, if there is one. -/
def ResultType.renameM (f : String → m (Option String)) : ResultType → m ResultType
  | void => pure void
  | value t => do return value (← t.renameM f)

/-- Asks for names in place of the class names, from left to right. A name for
    which there is no answer stays. -/
def MethodType.renameM (f : String → m (Option String)) (t : MethodType) : m MethodType := do
  let params ← t.params.mapM (·.renameM f)
  let result ← t.result.renameM f
  return ⟨params, result⟩

end Names

/-! ## Replacing names -/

/-- Replaces the class name. -/
def ElementType.rename (f : String → Option String) : ElementType → ElementType
  | primitive p => primitive p
  | object n => object ((f n).getD n)

/-- Replaces the class name. -/
def FieldType.rename (f : String → Option String) (t : FieldType) : FieldType :=
  { t with element := t.element.rename f }

/-- Replaces the class name, if there is one. -/
def ResultType.rename (f : String → Option String) : ResultType → ResultType
  | void => void
  | value t => value (t.rename f)

/-- Replaces the class names. A name for which there is no other stays. -/
def MethodType.rename (f : String → Option String) (t : MethodType) : MethodType :=
  ⟨t.params.map (·.rename f), t.result.rename f⟩

section Names

variable {m : Type → Type} [Monad m] [LawfulMonad m]

/-- Asking a function is replacing by it. -/
theorem FieldType.renameM_pure (f : String → Option String) (t : FieldType) :
    (t.renameM fun n => pure (f n) : m FieldType) = pure (t.rename f) := by
  rcases t with ⟨dims, _ | n⟩ <;> simp [renameM, rename, ElementType.renameM, ElementType.rename]

/-- Asking a function is replacing by it. -/
theorem MethodType.renameM_pure (f : String → Option String) (t : MethodType) :
    (t.renameM fun n => pure (f n) : m MethodType) = pure (t.rename f) := by
  rcases t with ⟨params, _ | t⟩ <;>
    simp [renameM, rename, ResultType.renameM, ResultType.rename, FieldType.renameM_pure]

end Names

/-! ## Listing names -/

/-- The class name in an element type. -/
def ElementType.names : ElementType → List String
  | primitive _ => []
  | object n => [n]

/-- The class name in a result. -/
def ResultType.names : ResultType → List String
  | void => []
  | value t => t.element.names

/-- The class names in a method type, from left to right. -/
def MethodType.names (t : MethodType) : List String :=
  t.params.flatMap (·.element.names) ++ t.result.names

/-- A descriptor with its class names replaced. A text that is no descriptor
    stays. -/
def renameDescriptor (f : String → Option String) (text : String) : String :=
  match MethodType.ofChars? text.toList with
  | some t => (t.rename f).display
  | none => text

end Openness
