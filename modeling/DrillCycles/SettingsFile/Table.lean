import DrillCycles.Text.Basic

/-!
# Tables of a settings file

A table is a list of keys with nodes.  Tables come about in several ways, and **`TableKind`** says
how, because that decides what may still be added to them:

* a header names a table and opens it; the tables on the way to it are there only *implicitly*, and a
  later header may still open them;
* a key with points in it makes tables, which further such keys may extend, but no header opens;
* a table written in braces is complete.

No key is ever set twice.
-/

namespace DrillCycles.SettingsFile

/-- How a table came about. -/
inductive TableKind where
  /-- Opened by a header; the whole file is such a table too. -/
  | opened
  /-- On the way to a table that a header opens. -/
  | implicit
  /-- Made by a key with points. -/
  | dotted
  /-- Written in braces. -/
  | braced
  deriving DecidableEq, Repr

/-- A value of a settings file.  Lists other than the empty one belong to no setting. -/
inductive Node where
  | boolean (value : Bool)
  | integer (value : Int)
  | string (value : Text)
  | emptyList
  | table (kind : TableKind) (entries : List (Text × Node))
  deriving Repr

/-- The keys of a table with their nodes, in the order of writing. -/
abbrev Entries := List (Text × Node)

namespace Entries

/-- The node at a key. -/
def get? (entries : Entries) (key : Text) : Option Node :=
  (entries.find? fun entry => entry.1 = key).map Prod.snd

/-- The entries with the node at a key replaced, or added at the end. -/
def set (entries : Entries) (key : Text) (node : Node) : Entries :=
  if entries.any fun entry => entry.1 = key then
    entries.map fun entry => if entry.1 = key then (key, node) else entry
  else entries ++ [(key, node)]

end Entries

/-- Goes down a path of keys and changes the table at its end.  Missing tables are made with the kind
`made`.  A table in braces is complete, and keys with points go only through tables that no header
has opened. -/
def descend (made : TableKind) (change : TableKind → Entries → Option (TableKind × Entries)) :
    List Text → TableKind → Entries → Option (TableKind × Entries)
  | [], kind, entries => change kind entries
  | key :: path, kind, entries => do
    let (childKind, child) ←
      match entries.get? key with
      | none => some (made, [])
      | some (.table childKind child) =>
        if childKind = .braced || (made = .dotted && childKind = .opened) then none
        else some (childKind, child)
      | some _ => none
    let (childKind, child) ← descend made change path childKind child
    some (kind, entries.set key (.table childKind child))

/-- Sets the last key of a path to a node.  The tables on the way to it must have been made by keys
with points. -/
def insert (path : List Text) (key : Text) (node : Node) (kind : TableKind) (entries : Entries) :
    Option (TableKind × Entries) :=
  descend .dotted
    (fun kind entries =>
      if (kind = .dotted) = (path = []) then none
      else if (entries.get? key).isSome then none
      else some (kind, entries.set key node))
    path kind entries

/-- Opens the table at the last key of a header's path. -/
def openTable (path : List Text) (key : Text) (kind : TableKind) (entries : Entries) :
    Option (TableKind × Entries) :=
  descend .implicit
    (fun kind entries =>
      match entries.get? key with
      | none => some (kind, entries.set key (.table .opened []))
      | some (.table .implicit child) => some (kind, entries.set key (.table .opened child))
      | some _ => none)
    path kind entries

/-- Changes the table that was opened at a path. -/
def within (change : TableKind → Entries → Option (TableKind × Entries)) :
    List Text → TableKind → Entries → Option (TableKind × Entries)
  | [], kind, entries => change kind entries
  | key :: path, kind, entries =>
    match entries.get? key with
    | some (.table childKind child) => do
      let (childKind, child) ← within change path childKind child
      some (kind, entries.set key (.table childKind child))
    | _ => none

end DrillCycles.SettingsFile
