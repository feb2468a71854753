import Openness.Proofs.Descriptors

/-!
# Asking for class names

Class names in a type are replaced by asking a function for every one of them. The
function may keep a state, and so may answer the same question in different ways. What it
is asked, and what becomes of its answers, is the same for field and for method types
(`class_names_asked`):

* it is called once for every class name, in the order in which they are printed, from left
  to right, and for nothing else;
* the answer to a call, or else the old name, stands in the place of the name afterwards;
* everything else is printed as before (`Refilled`), below as many array dimensions
  (`FieldType.shape`, `MethodType.shape`).

The calls are known from a record of them (`recording`): whoever keeps it gets the same
answers (`Records`). A type with several names is asked about one after the other, and the
calls for each part start in the state in which those for the part before it ended
(`Records.bind`).
-/

namespace Openness

/-! ## Printed parts -/

/-- A part of a printed type: a mark, or the name of a class. -/
inductive Piece where
  | mark (c : Char)
  | name (n : String)

/-- The characters of a part. -/
def Piece.chars : Piece → List Char
  | mark c => [c]
  | name n => n.toList

/-- The class name that a part is, if it is one. -/
def Piece.name? : Piece → Option String
  | mark _ => none
  | name n => some n

/-- The parts of an element type, as printed. -/
def ElementType.pieces : ElementType → List Piece
  | primitive p => [.mark p.code]
  | object n => [.mark 'L', .name n, .mark ';']

/-- The parts of a field type, as printed. -/
def FieldType.pieces (t : FieldType) : List Piece :=
  List.replicate t.dims (.mark '[') ++ t.element.pieces

/-- The parts of a result, as printed. -/
def ResultType.pieces : ResultType → List Piece
  | void => [.mark 'V']
  | value t => t.pieces

/-- The parts of a method type, as printed. -/
def MethodType.pieces (m : MethodType) : List Piece :=
  .mark '(' :: (m.params.flatMap FieldType.pieces ++ .mark ')' :: m.result.pieces)

theorem ElementType.flatMap_pieces (e : ElementType) :
    e.pieces.flatMap Piece.chars = e.chars := by
  cases e <;> simp [pieces, chars, Piece.chars]

theorem FieldType.flatMap_pieces (t : FieldType) : t.pieces.flatMap Piece.chars = t.chars := by
  rw [pieces, chars, List.flatMap_append, t.element.flatMap_pieces]
  simp [List.flatMap_replicate, Piece.chars]

theorem ResultType.flatMap_pieces (r : ResultType) :
    r.pieces.flatMap Piece.chars = r.chars := by
  cases r with
  | void => rfl
  | value t => exact t.flatMap_pieces

theorem MethodType.flatMap_pieces (m : MethodType) : m.pieces.flatMap Piece.chars = m.chars := by
  simp only [pieces, chars, List.flatMap_cons, List.flatMap_append, List.flatMap_assoc,
    FieldType.flatMap_pieces, ResultType.flatMap_pieces, Piece.chars, List.cons_append,
    List.nil_append]

theorem ElementType.filterMap_pieces (e : ElementType) :
    e.pieces.filterMap Piece.name? = e.names := by
  cases e <;> rfl

theorem FieldType.filterMap_pieces (t : FieldType) :
    t.pieces.filterMap Piece.name? = t.element.names := by
  rw [pieces, List.filterMap_append, t.element.filterMap_pieces]
  simp [List.filterMap_replicate, Piece.name?]

theorem ResultType.filterMap_pieces (r : ResultType) :
    r.pieces.filterMap Piece.name? = r.names := by
  cases r with
  | void => rfl
  | value t => exact t.filterMap_pieces

theorem MethodType.filterMap_pieces (m : MethodType) :
    m.pieces.filterMap Piece.name? = m.names := by
  simp only [pieces, names, List.filterMap_cons, List.filterMap_append, List.filterMap_flatMap,
    FieldType.filterMap_pieces, ResultType.filterMap_pieces, Piece.name?]

/-! ## Shapes -/

/-- What an element type is but for its class name: a primitive type, or a class. -/
def ElementType.shape : ElementType → Option Primitive
  | primitive p => some p
  | object _ => none

/-- What a field type is but for its class name: array dimensions, and what is below them. -/
def FieldType.shape (t : FieldType) : Nat × Option Primitive := (t.dims, t.element.shape)

/-- What a result is but for its class name. -/
def ResultType.shape : ResultType → Option (Nat × Option Primitive)
  | void => none
  | value t => some t.shape

/-- What a method type is but for its class names: the parameters in order, and the
    result. -/
def MethodType.shape (m : MethodType) :
    List (Nat × Option Primitive) × Option (Nat × Option Primitive) :=
  (m.params.map FieldType.shape, m.result.shape)

/-! ## Calls -/

/-- A call for a class name. -/
structure Call where
  /-- The name that is asked about. -/
  name : String
  /-- The name in its place, if there is one. -/
  answer : Option String

/-- The name that stands in the place afterwards. -/
def Call.result (c : Call) : String := c.answer.getD c.name

/-- There is a call for every name of the first list, in order, and the second list is the
    first one with what came of the calls in their places. -/
inductive Refilled : List Piece → List Call → List Piece → Prop
  | nil : Refilled [] [] []
  | mark {ps qs : List Piece} {calls : List Call} (c : Char) :
    Refilled ps calls qs → Refilled (.mark c :: ps) calls (.mark c :: qs)
  | name {ps qs : List Piece} {calls : List Call} (c : Call) :
    Refilled ps calls qs → Refilled (.name c.name :: ps) (c :: calls) (.name c.result :: qs)

namespace Refilled

variable {ps ps' qs qs' : List Piece} {calls calls' : List Call}

theorem append (h : Refilled ps calls qs) (h' : Refilled ps' calls' qs') :
    Refilled (ps ++ ps') (calls ++ calls') (qs ++ qs') := by
  induction h with
  | nil => exact h'
  | mark c _ ih => exact .mark c ih
  | name c _ ih => exact .name c ih

/-- Marks stay without a call. -/
theorem replicate (k : Nat) (c : Char) :
    Refilled (List.replicate k (.mark c)) [] (List.replicate k (.mark c)) := by
  induction k with
  | zero => exact .nil
  | succ k ih => exact .mark c ih

/-- The names asked about are those in the first list. -/
theorem map_name (h : Refilled ps calls qs) :
    calls.map Call.name = ps.filterMap Piece.name? := by
  induction h with
  | nil => rfl
  | mark c _ ih => exact ih
  | name c _ ih => exact congrArg (c.name :: ·) ih

end Refilled

section Records

variable {σ α β : Type} {f : String → StateM σ (Option String)}

/-- `f`, called for the names in turn, gives these answers, and goes from the first state to
    the last one. -/
inductive Answers (f : String → StateM σ (Option String)) : σ → List Call → σ → Prop
  | nil (s : σ) : Answers f s [] s
  | cons {s s' s'' : σ} {c : Call} {calls : List Call} :
    (f c.name).run s = (c.answer, s') → Answers f s' calls s'' → Answers f s (c :: calls) s''

theorem Answers.append {s s' s'' : σ} {calls calls' : List Call} (h : Answers f s calls s')
    (h' : Answers f s' calls' s'') : Answers f s (calls ++ calls') s'' := by
  induction h with
  | nil s => exact h'
  | cons hc _ ih => exact .cons hc (ih h')

/-- A function together with a record of the calls to it, the last one at the end. -/
def recording (f : String → StateM σ (Option String)) (n : String) :
    StateM (List Call × σ) (Option String) := fun (calls, s) =>
  let (answer, s') := (f n).run s
  (answer, calls ++ [⟨n, answer⟩], s')

/-- From state `s` on, `x` ends with `a` in state `s'`, and has called `f` as in `calls`: so
    says the record of `x'`, which ends alike. -/
structure Records (f : String → StateM σ (Option String)) (x : StateM σ α)
    (x' : StateM (List Call × σ) α) (s : σ) (calls : List Call) (a : α) (s' : σ) : Prop where
  run : x.run s = (a, s')
  recorded : ∀ past, x'.run (past, s) = (a, past ++ calls, s')
  answers : Answers f s calls s'

namespace Records

variable {x : StateM σ α} {x' : StateM (List Call × σ) α} {s s' s'' : σ}
  {calls calls' : List Call} {a : α} {b : β}

/-- What is known already needs no call. -/
theorem pure (a : α) (s : σ) : Records f (pure a) (pure a) s [] a s where
  run := rfl
  recorded _ := by rw [List.append_nil]; rfl
  answers := .nil s

theorem call (n : String) (s : σ) :
    Records f (f n) (recording f n) s [⟨n, ((f n).run s).1⟩] ((f n).run s).1 ((f n).run s).2 where
  run := rfl
  recorded _ := rfl
  answers := .cons rfl (.nil _)

/-- The calls of the second part follow those of the first one, from the state in which that
    ended. -/
theorem bind {k : α → StateM σ β} {k' : α → StateM (List Call × σ) β}
    (h : Records f x x' s calls a s') (hk : Records f (k a) (k' a) s' calls' b s'') :
    Records f (x >>= k) (x' >>= k') s (calls ++ calls') b s'' where
  run := by
    rw [StateT.run_bind, h.run]
    exact hk.run
  recorded past := by
    rw [StateT.run_bind, h.recorded]
    show (k' a).run (past ++ calls, s') = _
    rw [hk.recorded, List.append_assoc]
  answers := h.answers.append hk.answers

theorem map (h : Records f x x' s calls a s') (g : α → β) :
    Records f (x >>= fun a => Pure.pure (g a)) (x' >>= fun a => Pure.pure (g a)) s calls (g a)
      s' :=
  List.append_nil calls ▸ h.bind (.pure (g a) s')

end Records

end Records

/-! ## Types -/

section AsksInOrder

variable {α β : Type}

/-- Whatever the function is, it is called for the names among the printed parts, in order,
    and its answers are put in their places; the shape stays. -/
def AsksInOrder (renameM : {σ : Type} → (String → StateM σ (Option String)) → α → StateM σ α)
    (pieces : α → List Piece) (shape : α → β) : Prop :=
  ∀ {σ : Type} (f : String → StateM σ (Option String)) (v : α) (s : σ), ∃ calls w s',
    Records f (renameM f v) (renameM (recording f) v) s calls w s' ∧
      Refilled (pieces v) calls (pieces w) ∧ shape w = shape v

theorem ElementType.asksInOrder : AsksInOrder renameM pieces shape := by
  intro σ f e s
  cases e with
  | primitive p => exact ⟨[], _, s, .pure _ s, .mark _ .nil, rfl⟩
  | object n =>
    exact ⟨_, _, _, (Records.call n s).map _, .mark 'L' (.name ⟨n, _⟩ (.mark ';' .nil)), rfl⟩

theorem FieldType.asksInOrder : AsksInOrder renameM pieces shape := by
  intro σ f t s
  obtain ⟨calls, e, s', hrecords, hrefilled, hshape⟩ := ElementType.asksInOrder f t.element s
  exact ⟨calls, _, s', hrecords.map _, (Refilled.replicate t.dims '[').append hrefilled,
    congrArg (t.dims, ·) hshape⟩

theorem ResultType.asksInOrder : AsksInOrder renameM pieces shape := by
  intro σ f r s
  cases r with
  | void => exact ⟨[], _, s, .pure _ s, .mark _ .nil, rfl⟩
  | value t =>
    obtain ⟨calls, u, s', hrecords, hrefilled, hshape⟩ := FieldType.asksInOrder f t s
    exact ⟨calls, _, s', hrecords.map _, hrefilled, congrArg some hshape⟩

/-- Several things are asked about one after the other. -/
theorem AsksInOrder.mapM
    {renameM : {σ : Type} → (String → StateM σ (Option String)) → α → StateM σ α}
    {pieces : α → List Piece} {shape : α → β} (h : AsksInOrder renameM pieces shape) :
    AsksInOrder (fun f => List.mapM (renameM f)) (List.flatMap pieces) (List.map shape) := by
  intro σ f vs s
  induction vs generalizing s with
  | nil => exact ⟨[], [], s, .pure _ s, .nil, rfl⟩
  | cons v vs ih =>
    -- The rest is asked about in the state in which the calls for the first one ended.
    obtain ⟨calls, w, s', hrecords, hrefilled, hshape⟩ := h f v s
    obtain ⟨calls', ws, s'', hrecords', hrefilled', hshape'⟩ := ih s'
    refine ⟨calls ++ calls', w :: ws, s'', ?_, hrefilled.append hrefilled', ?_⟩
    · simp only [List.mapM_cons]
      exact hrecords.bind (hrecords'.map _)
    · rw [List.map_cons, List.map_cons, hshape, hshape']

theorem MethodType.asksInOrder : AsksInOrder renameM pieces shape := by
  intro σ f m s
  -- The result is printed behind the parameters, and asked about after them.
  obtain ⟨calls, us, s', hrecords, hrefilled, hshape⟩ :=
    FieldType.asksInOrder.mapM f m.params s
  obtain ⟨calls', r, s'', hrecords', hrefilled', hshape'⟩ :=
    ResultType.asksInOrder f m.result s'
  exact ⟨calls ++ calls', ⟨us, r⟩, s'', hrecords.bind (hrecords'.map _),
    .mark '(' (hrefilled.append (.mark ')' hrefilled')), Prod.ext hshape hshape'⟩

/-- Class names are replaced by asking for them. -/
structure RenamesByAsking
    (renameM : {σ : Type} → (String → StateM σ (Option String)) → α → StateM σ α)
    (display : α → String) (names : α → List String) (pieces : α → List Piece)
    (shape : α → β) : Prop where
  /-- The printed form is made of the parts. -/
  printed : ∀ v, display v = String.ofList ((pieces v).flatMap Piece.chars)
  /-- The class names are those among the parts. -/
  listed : ∀ v, names v = (pieces v).filterMap Piece.name?
  /-- A function with a state is called for the class names, in order, and what comes of the
      calls stands in their places. -/
  asked : ∀ {σ : Type} (f : String → StateM σ (Option String)) (v : α) (s : σ),
    ∃ calls w s', Records f (renameM f v) (renameM (recording f) v) s calls w s' ∧
      calls.map Call.name = names v ∧ Refilled (pieces v) calls (pieces w) ∧ shape w = shape v
  /-- Nothing changes without an answer. -/
  unanswered : ∀ {σ : Type} (v : α),
    renameM (fun _ => pure none : String → StateM σ (Option String)) v = pure v
  /-- Two functions without a state, one after the other, do the same as both at once. -/
  twice : ∀ {σ : Type} (f g : String → Option String) (v : α),
    (renameM (fun n => pure (f n)) v >>= renameM fun n => pure (g n) : StateM σ α) =
      renameM (fun n => pure (followedBy f g n)) v

/-- Asking functions without a state is replacing names, and obeys its laws. -/
theorem RenamesByAsking.of_rename
    {renameM : {σ : Type} → (String → StateM σ (Option String)) → α → StateM σ α}
    {rename : (String → Option String) → α → α} {display : α → String} {names : α → List String}
    {pieces : α → List Piece} {shape : α → β} (hasks : AsksInOrder renameM pieces shape)
    (hprinted : ∀ v, display v = String.ofList ((pieces v).flatMap Piece.chars))
    (hlisted : ∀ v, names v = (pieces v).filterMap Piece.name?)
    (hpure : ∀ {σ : Type} (f : String → Option String) (v : α),
      (renameM (fun n => pure (f n)) v : StateM σ α) = pure (rename f v))
    (hself : ∀ v, rename (fun _ => none) v = v)
    (htwice : ∀ f g v, rename g (rename f v) = rename (followedBy f g) v) :
    RenamesByAsking renameM display names pieces shape where
  printed := hprinted
  listed := hlisted
  asked f v s := by
    obtain ⟨calls, w, s', hrecords, hrefilled, hshape⟩ := hasks f v s
    exact ⟨calls, w, s', hrecords, hrefilled.map_name.trans (hlisted v).symm, hrefilled, hshape⟩
  unanswered v := (hpure _ v).trans (congrArg pure (hself v))
  twice f g v := by rw [hpure, pure_bind, hpure, hpure, htwice]

end AsksInOrder

/-- Field and method types are asked about name by name, from left to right, and nothing but
    the names changes. -/
theorem class_names_asked :
    RenamesByAsking FieldType.renameM FieldType.display (·.element.names) FieldType.pieces
        FieldType.shape ∧
      RenamesByAsking MethodType.renameM MethodType.display MethodType.names MethodType.pieces
        MethodType.shape := by
  constructor
  · exact .of_rename FieldType.asksInOrder
      (fun t => congrArg String.ofList t.flatMap_pieces.symm)
      (fun t => t.filterMap_pieces.symm) FieldType.renameM_pure
      (fun t => FieldType.rename_eq_self fun _ _ => rfl) fun f g t => t.rename_rename f g
  · exact .of_rename MethodType.asksInOrder
      (fun m => congrArg String.ofList m.flatMap_pieces.symm)
      (fun m => m.filterMap_pieces.symm) MethodType.renameM_pure
      (fun m => MethodType.rename_eq_self fun _ _ => rfl) fun f g m => m.rename_rename f g

/-- Names are handed out one after the other, also to the same class, and the last class gets
    none. -/
example :
    (MethodType.renameM (m := StateM (List String)) (fun _ names => (names.head?, names.tail))
      ⟨[⟨1, .object "a"⟩, ⟨0, .primitive .int⟩, ⟨0, .object "a"⟩], .value ⟨0, .object "b"⟩⟩).run
        ["x", "y"] =
      (⟨[⟨1, .object "x"⟩, ⟨0, .primitive .int⟩, ⟨0, .object "y"⟩], .value ⟨0, .object "b"⟩⟩,
        []) :=
  rfl

end Openness
