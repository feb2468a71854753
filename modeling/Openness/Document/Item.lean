/-!
# Items of a document

A settings document is a tree of tables (`Item`). Tables come about in several
ways, and the way decides how a table may be extended later on (`TableKind`):

* a table with a header of its own takes the assignments below that header, and
  no others;
* a table that only stands on the way to a header may still get a header;
* a table that only stands on the way to an assignment may get more assignments
  through the same way, but no header.

Headers may lead through all of these to further tables. A table written between
braces is a value, and closed.

This is a part of what stands in for a TOML library (see `Openness.Document.Reader`).
-/

namespace Openness.Document

/-- How a table came about. -/
inductive TableKind where
  /-- By a header of its own. -/
  | header
  /-- On the way to the header of a table in it. -/
  | wayToHeader
  /-- On the way to an assignment. -/
  | wayToValue
  deriving DecidableEq, Repr

/-- What a key can stand for. Entries are in the order of the document. -/
inductive Item where
  /-- A text. -/
  | text (content : String)
  /-- A number, a truth value or a time. -/
  | scalar
  /-- A list of values. -/
  | array (items : List Item)
  /-- A table between braces. -/
  | braces (entries : List (String × Item))
  /-- A table. -/
  | table (kind : TableKind) (entries : List (String × Item))
  /-- Tables under headers of the same name. -/
  | tables (all : List (List (String × Item)))

/-- The entries of a table, in the order of the document. -/
abbrev Entries := List (String × Item)

namespace Entries

/-- The item of a key. -/
def find? (key : String) : Entries → Option Item
  | [] => none
  | (k, i) :: es => if key = k then some i else find? key es

/-- Puts another item in the place of the item of a key. -/
def replace (key : String) (item : Item) : Entries → Entries
  | [] => []
  | (k, i) :: es => if key = k then (k, item) :: es else (k, i) :: replace key item es

/-- Lets go of a key. -/
def erase (key : String) (es : Entries) : Entries := es.filter (·.1 ≠ key)

/-- Adds a key at the end, if it is new. -/
def add? (key : String) (item : Item) (es : Entries) : Option Entries :=
  if (find? key es).isSome then none else some (es ++ [(key, item)])

/-- Changes the last of some tables. -/
def onLast (f : Entries → Option Entries) : List Entries → Option (List Entries)
  | [] => none
  | [es] => (f es).map ([·])
  | es :: rest => (onLast f rest).map (es :: ·)

/-- Assigns an item to a key at the end of a way. The tables on the way must be
    ones that no header has closed, and the last one must have come about by
    such a way. -/
def assign? (key : String) (item : Item) : List String → Entries → Option Entries
  | [], es => add? key item es
  | k :: ks, es =>
    let inside (kind : TableKind) (sub : Entries) : Option Entries :=
      if ks.isEmpty && kind ≠ .wayToValue then none else assign? key item ks sub
    match find? k es with
    | none => (inside .wayToValue []).map fun sub => es ++ [(k, .table .wayToValue sub)]
    | some (.table .header _) => none
    | some (.table kind sub) =>
      (inside kind sub).map fun sub => replace k (.table kind sub) es
    | some (.tables all) =>
      (onLast (inside .header) all).map fun all => replace k (.tables all) es
    | some _ => none

/-- Changes the table at the end of a way of headers. What is missing on the
    way is made. -/
def onTable (f : Entries → Option Entries) : List String → Entries → Option Entries
  | [], es => f es
  | k :: ks, es =>
    match find? k es with
    | none => (onTable f ks []).map fun sub => es ++ [(k, .table .wayToHeader sub)]
    | some (.table kind sub) => (onTable f ks sub).map fun sub => replace k (.table kind sub) es
    | some (.tables all) => (onLast (onTable f ks) all).map fun all => replace k (.tables all) es
    | some _ => none

/-- The table at the end of a way of headers. -/
def tableAt? : List String → Entries → Option Entries
  | [], es => some es
  | k :: ks, es =>
    match find? k es with
    | none => tableAt? ks []
    | some (.table _ sub) => tableAt? ks sub
    | some (.tables all) => all.getLast?.bind (tableAt? ks)
    | some _ => none

end Entries

end Openness.Document
