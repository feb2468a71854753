import Openness.Document.Statement

/-!
# Reading documents

Settings are written in TOML, a general format, and reading it is the work of a library for
that format. The modules under `Openness.Document` stand in for such a library, so that there
is something to read settings with (`Format.Settings.ofDocument`). They are no part of the
model: nothing is proved about them, and no theorem depends on how they work.

The statements of a document, one after the other, make a tree of tables
(`Draft.step`). `Document.read` gives the entries of the outermost table in the
order of the document, and nothing if the text is no document or if its
statements do not agree with each other. Which ones may stand beside each other
is said in `Openness.Document.Item`.
-/

namespace Openness.Document

/-- Where a table belongs. -/
inductive Place where
  /-- It is the outermost table. -/
  | outermost
  /-- It is the table of a key. -/
  | table (way : List String) (key : String)
  /-- It is one more of the tables of a key. -/
  | element (way : List String) (key : String)

/-- A document of which some lines are read. The table under the latest header
    is kept apart until the next header. -/
structure Draft where
  /-- The outermost table, without the latest one. -/
  root : Entries := []
  /-- Where the latest table belongs. -/
  place : Place := .outermost
  /-- The entries of the latest table. -/
  latest : Entries := []

namespace Draft

/-- The outermost table with the latest one in its place. -/
def close (d : Draft) : Option Entries :=
  match d.place with
  | .outermost => some d.latest
  | .table way key =>
    Entries.onTable (Entries.add? key (.table .header d.latest)) way d.root
  | .element way key =>
    let append (es : Entries) : Option Entries :=
      match Entries.find? key es with
      | some (.tables all) => some (Entries.replace key (.tables (all ++ [d.latest])) es)
      | _ => none
    Entries.onTable append way d.root

/-- Starts a table. One that was only on the way to a header so far is taken up
    again. -/
def startTable (root : Entries) (way : List String) (key : String) : Option Draft :=
  let reopen (es : Entries) : Option (Entries × Entries) :=
    match Entries.find? key es with
    | none => some (es, [])
    | some (.table .wayToHeader sub) => some (Entries.erase key es, sub)
    | some _ => none
  match (Entries.tableAt? way root).bind reopen with
  | none => none
  | some (_, sub) =>
    (Entries.onTable (fun es => (reopen es).map (·.1)) way root).map fun root =>
      { root, place := .table way key, latest := sub }

/-- Starts one more of some tables of the same name. -/
def startElement (root : Entries) (way : List String) (key : String) : Option Draft :=
  let make (es : Entries) : Option Entries :=
    match Entries.find? key es with
    | none => some (es ++ [(key, .tables [])])
    | some (.tables _) => some es
    | some _ => none
  (Entries.onTable make way root).map fun root => { root, place := .element way key }

/-- Does what a line says. -/
def step (d : Draft) : Statement → Option Draft
  | .assignment way key item =>
    (Entries.assign? key item way d.latest).map fun latest => { d with latest }
  | .table way key => d.close.bind (startTable · way key)
  | .element way key => d.close.bind (startElement · way key)

end Draft

/-- The entries of the outermost table of a document, in the order of the
    document. -/
def read (document : String) : Option Entries := do
  let (lines, _) ← statements document.toList
  let draft ← lines.foldlM Draft.step {}
  draft.close

end Openness.Document
