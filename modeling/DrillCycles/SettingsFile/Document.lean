import DrillCycles.SettingsFile.Scalar
import DrillCycles.SettingsFile.Table

/-!
# Settings files as documents

A settings file is a list of statements, one on a line: headers, which open a table, and settings of
keys in the table that is open.  **`Document.parse?`** reads a whole file into the entries of its
outermost table.

A table in braces may go over several lines, with comments in it and a comma behind its last entry.
-/

namespace DrillCycles.SettingsFile

/-- Reads the empty list. -/
def emptyList? : Text → Option Text
  | '[' :: t =>
    match skipLines t with
    | ']' :: rest => some rest
    | _ => none
  | _ => none

/-- Reads a word that stands for a truth value. -/
def boolean? (t : Text) : Option (Bool × Text) :=
  if "true".toList.isPrefixOf t then some (true, t.drop 4)
  else if "false".toList.isPrefixOf t then some (false, t.drop 5)
  else none

/-- Reads a value that is no table. -/
def simpleValue? (t : Text) : Option (Node × Text) :=
  ((string? t).map fun (value, rest) => (.string value, rest)) <|>
    ((boolean? t).map fun (value, rest) => (.boolean value, rest)) <|>
    ((emptyList? t).map fun rest => (.emptyList, rest)) <|>
    ((integer? t).map fun (value, rest) => (.integer value, rest))

/-- Reads a key, an equals sign and what is needed to read the value. -/
def keyAndSign? (t : Text) : Option (List Text × Text × Text) := do
  let (path, rest) ← path? t
  let key ← path.getLast?
  match rest with
  | '=' :: rest => some (path.dropLast, key, skipSpaces rest)
  | _ => none

mutual

/-- Reads a value. -/
def value? : Nat → Text → Option (Node × Text)
  | 0, _ => none
  | n + 1, t =>
    match t with
    | '\x7b' :: rest => bracedFrom n .nil (skipLines rest)
    | t => simpleValue? t

/-- Reads the entries of a table in braces that has some already, up to the closing brace. -/
def bracedFrom : Nat → Entries → Text → Option (Node × Text)
  | 0, _, _ => none
  | n + 1, entries, t =>
    match t with
    | '\x7d' :: rest => some (.table .braced entries, rest)
    | t => do
      let (path, key, rest) ← keyAndSign? t
      let (node, rest) ← value? n rest
      let (_, entries) ← insert path key node .braced entries
      match skipLines rest with
      | ',' :: rest => bracedFrom n entries (skipLines rest)
      | '\x7d' :: rest => some (.table .braced entries, rest)
      | _ => none

end

/-- A file as far as it has been read: the entries of its outermost table, and the path of the table
that is open. -/
structure Document where
  entries : Entries := []
  current : List Text := []
  deriving Repr

namespace Document

/-- Reads a header behind its opening bracket. -/
def header? (d : Document) (t : Text) : Option (Document × Text) := do
  let (path, rest) ← path? (skipSpaces t)
  let key ← path.getLast?
  match rest with
  | ']' :: rest => do
    let (_, entries) ← openTable path.dropLast key .opened d.entries
    some (⟨entries, path⟩, rest)
  | _ => none

/-- Reads the setting of a key. -/
def setting? (d : Document) (t : Text) : Option (Document × Text) := do
  let (path, key, rest) ← keyAndSign? t
  let (node, rest) ← value? (t.length + 1) rest
  let (_, entries) ← within (insert path key node) d.current .opened d.entries
  some ({ d with entries }, rest)

/-- Reads one statement, or none on a line without any. -/
def statement? (d : Document) (t : Text) : Option (Document × Text) :=
  match skipSpaces t with
  | '[' :: rest => d.header? rest
  | c :: rest => if c = '#' || c = '\n' || c = '\r' then some (d, c :: rest) else d.setting? (c :: rest)
  | [] => some (d, [])

/-- Reads statements to the end of the text, at most the given number of lines. -/
def statementsFrom : Nat → Document → Text → Option Document
  | 0, _, _ => none
  | _ + 1, d, [] => some d
  | n + 1, d, t => do
    let (d, rest) ← d.statement? t
    let rest ← statementEnd? rest
    statementsFrom n d rest

/-- The text behind a byte-order mark, if it starts with one. -/
def withoutMark : Text → Text
  | '\ufeff' :: t => t
  | t => t

/-- Reads a whole file. -/
def parse? (t : Text) : Option Entries :=
  (statementsFrom (t.length + 1) {} (withoutMark t)).map Document.entries

end Document

end DrillCycles.SettingsFile
