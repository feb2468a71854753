import Mathlib.Logic.Function.Basic
import Openness.Proofs.Entries

/-!
# Classes as plain functions

A class keeps its entries in tables that store no neutral transform. To a caller this makes
no difference: a class behaves as a function from slots to transforms (`PlainClass`) in which
a slot is joined into or replaced and nothing else happens, and in which a neutral transform
stands for no entry.

A caller does operations one after the other and gets an answer to each (`runAll`).
Operations on the tables and on the function give the same answers, and go on to correspond
(`ClassTransforms.refines_plain`), by one operation (`ClassTransforms.step_get`) and then
along the list (`runAll_map`). So look-ups answer alike as well, and two classes are equal
exactly if they are the same function.
-/

namespace Openness

/-! ## Operations -/

/-- What a caller may do to a class, given how other classes are taken. -/
inductive ClassOperation (γ : Type) where
  /-- Joins a transform into a slot. -/
  | merge (slot : Slot) (t : Transform)
  /-- Puts a transform into a slot, in place of what it holds. -/
  | replace (slot : Slot) (t : Transform)
  /-- Joins another class in, slot by slot. -/
  | mergeClass (other : γ)

/-- The operation with the other class taken differently. -/
def ClassOperation.map {γ δ : Type} (f : γ → δ) : ClassOperation γ → ClassOperation δ
  | merge slot t => merge slot t
  | replace slot t => replace slot t
  | mergeClass other => mergeClass (f other)

section Runs

variable {σ τ ω ω' α : Type}

/-- Does operations one after the other, and lists the answers. -/
def runAll (step : σ → ω → α × σ) (s : σ) : List ω → List α × σ
  | [] => ([], s)
  | op :: ops =>
    let rest := runAll step (step s op).2 ops
    ((step s op).1 :: rest.1, rest.2)

/-- If single operations give the same answers on both sides and states correspond
    afterwards, then so do any number of them. -/
theorem runAll_map {step : σ → ω → α × σ} {step' : τ → ω' → α × τ} {f : σ → τ} {g : ω → ω'}
    (h : ∀ s op, step' (f s) (g op) = ((step s op).1, f (step s op).2)) (s : σ) (ops : List ω) :
    runAll step' (f s) (ops.map g) = ((runAll step s ops).1, f (runAll step s ops).2) := by
  induction ops generalizing s with
  | nil => rfl
  | cons op ops ih => simp only [List.map_cons, runAll, h, ih]

end Runs

/-- One operation on a class, with its answer if it has one. -/
def ClassTransforms.step (c : ClassTransforms) :
    ClassOperation ClassTransforms → Option Transform × ClassTransforms
  | .merge slot t => (some (c.merge slot t).1, (c.merge slot t).2)
  | .replace slot t => c.replace slot t
  | .mergeClass d => (none, c.union d)

/-! ## Plain classes -/

/-- Whether a slot is that of a single field or method. -/
def Slot.isMember : Slot → Bool
  | .field _ => true
  | .method _ => true
  | _ => false

/-- A class as a function. The slots are the class, all fields, all methods, the field names
    and the signatures, so these are three transforms and two functions. -/
abbrev PlainClass := Slot → Transform

namespace PlainClass

/-- The class of which nothing is asked. -/
def new : PlainClass := fun _ => .neutral

/-- The entry in a slot, if something is asked there. -/
def entry? (p : PlainClass) (slot : Slot) : Option Transform :=
  if p slot = .neutral then none else some (p slot)

/-- What holds for a slot: that of a field or method goes on to all of them if nothing is
    asked there. -/
def lookup (p : PlainClass) (slot : Slot) : Transform :=
  if p slot = .neutral then p slot.fallback else p slot

/-- One operation. Joining answers what the slot holds then, and so does replacing, but for a
    field or method it answers the old entry. -/
def step (p : PlainClass) : ClassOperation PlainClass → Option Transform × PlainClass
  | .merge slot t => (some (max (p slot) t), Function.update p slot (max (p slot) t))
  | .replace slot t =>
    (if slot.isMember then p.entry? slot else some t, Function.update p slot t)
  | .mergeClass q => (none, fun slot => max (p slot) (q slot))

end PlainClass

/-! ## Refinement -/

namespace ClassTransforms

theorem get_set_eq_update (c : ClassTransforms) (slot : Slot) (t : Transform) :
    (c.set slot t).get = Function.update c.get slot t := by
  funext slot'
  rw [get_set, Function.update_apply]

/-- An operation on a class does to its slots what it does to a plain class, and answers the
    same. -/
theorem step_get (c : ClassTransforms) (op : ClassOperation ClassTransforms) :
    PlainClass.step c.get (op.map get) = ((c.step op).1, (c.step op).2.get) := by
  cases op with
  | merge slot t =>
    show _ = (some ((c.join slot t).get slot), (c.join slot t).get)
    rw [join, get_set_eq_update, Function.update_self]
    rfl
  | replace slot t =>
    show _ = ((c.replace slot t).1, (c.set slot t).get)
    rw [get_set_eq_update]
    refine congrArg (·, Function.update c.get slot t) ?_
    -- Only a field or method has an entry to answer.
    cases slot with
    | field n => exact (c.fields.find?_eq n).symm
    | method m => exact (c.methods.find?_eq m).symm
    | _ => rfl
  | mergeClass d => exact congrArg (none, ·) (funext fun slot => (c.get_union d slot).symm)

/-- A class corresponds to a plain one, for all that a caller can see. -/
structure Corresponds (c : ClassTransforms) (p : PlainClass) : Prop where
  own : c.own = p .own
  allFields : c.allFields = p .allFields
  allMethods : c.allMethods = p .allMethods
  /-- A field has an entry exactly if something is asked of it. -/
  fields : ∀ n, c.fields.find? n = p.entry? (.field n)
  /-- A method has an entry exactly if something is asked of it. -/
  methods : ∀ m, c.methods.find? m = p.entry? (.method m)
  lookup : ∀ slot, c.lookup slot = p.lookup slot

theorem corresponds_get (c : ClassTransforms) : c.Corresponds c.get where
  own := rfl
  allFields := rfl
  allMethods := rfl
  fields n := c.fields.find?_eq n
  methods m := c.methods.find?_eq m
  lookup slot := c.lookup_eq slot

/-- Classes are equal exactly if they are the same plain class. -/
theorem beq_iff_get_eq {c d : ClassTransforms} : (c == d) = true ↔ c.get = d.get := by
  rw [beq_iff_eq]
  exact ⟨congrArg get, fun h => ext_get (congrFun h)⟩

/-- A class that comes of operations on a new one corresponds to the plain class that comes of
    them, and so do the answers. Two such classes are equal exactly if the plain ones are. -/
theorem refines_plain (ops : List (ClassOperation ClassTransforms)) :
    (runAll step ∅ ops).1 = (runAll PlainClass.step .new (ops.map (.map get))).1 ∧
      (runAll step ∅ ops).2.Corresponds (runAll PlainClass.step .new (ops.map (.map get))).2 ∧
      ∀ ops', ((runAll step ∅ ops).2 == (runAll step ∅ ops').2) = true ↔
        (runAll PlainClass.step .new (ops.map (.map get))).2 =
          (runAll PlainClass.step .new (ops'.map (.map get))).2 := by
  have hrun (ops : List (ClassOperation ClassTransforms)) :
      runAll PlainClass.step .new (ops.map (.map get)) =
        ((runAll step ∅ ops).1, (runAll step ∅ ops).2.get) := by
    have hnew : PlainClass.new = (∅ : ClassTransforms).get :=
      funext fun slot => (get_empty slot).symm
    rw [hnew]
    exact runAll_map step_get ∅ ops
  rw [hrun ops]
  refine ⟨rfl, corresponds_get _, fun ops' => ?_⟩
  rw [hrun ops']
  exact beq_iff_get_eq

end ClassTransforms

end Openness
