/-!
# Texts and their lines

A text is a list of characters, so that every function on it is a function on lists.

* **`Text.pieces`** cuts a text at every occurrence of one character.  There is one piece more than
  there are cuts; a piece may be empty.
* **`Text.lines`** cuts a text at every line feed.  What follows the last line feed is a line too,
  also when it is empty.
* **`Text.unlines`** ends every line with a line feed.  `Text.lines` after `Text.unlines` gives the
  lines back, followed by one empty line.
* **`Text.terminatedLines`** reads a line feed as the end of a line instead of as a separator: an
  empty remainder is no line, and a carriage return before the line feed belongs to the line end.
-/

namespace DrillCycles

/-- A text is its list of Unicode scalar values. -/
abbrev Text := List Char

namespace Text

/-- Puts one character in front of the first piece, or starts a new piece at the separator. -/
def consPiece (separator c : Char) : List Text → List Text
  | [] => if c = separator then [[], []] else [[c]]
  | piece :: rest => if c = separator then [] :: piece :: rest else (c :: piece) :: rest

/-- The pieces of a text between the occurrences of a separator. -/
def pieces (separator : Char) (t : Text) : List Text :=
  t.foldr (consPiece separator) [[]]

/-- The pieces between the line feeds of a text. -/
def lines (t : Text) : List Text :=
  pieces '\n' t

/-- The given lines, each ended by a line feed. -/
def unlines (ls : List Text) : Text :=
  ls.flatMap (· ++ ['\n'])

/-- A line without the carriage return at its end, if it has one. -/
def withoutReturn (line : Text) : Text :=
  if line.getLast? = some '\r' then line.dropLast else line

/-- The lines of a text when every line feed *ends* a line, together with a carriage return before
it.  A last line without a line feed counts when it is not empty, and keeps its carriage return. -/
def terminatedLines (t : Text) : List Text :=
  (lines t).dropLast.map withoutReturn ++ (lines t).getLast?.toList.filter (!·.isEmpty)

/-- The decimal digits of a natural number. -/
def ofNat (n : Nat) : Text :=
  Nat.toDigits 10 n

@[simp] theorem pieces_nil (separator : Char) : pieces separator [] = [[]] := rfl

@[simp] theorem pieces_cons (separator c : Char) (t : Text) :
    pieces separator (c :: t) = consPiece separator c (pieces separator t) := rfl

theorem consPiece_ne_nil (separator c : Char) (ps : List Text) :
    consPiece separator c ps ≠ [] := by
  cases ps <;> simp only [consPiece] <;> split <;> simp

/-- A text has at least one piece. -/
theorem pieces_ne_nil (separator : Char) (t : Text) : pieces separator t ≠ [] := by
  cases t with
  | nil => simp
  | cons c t => exact consPiece_ne_nil separator c (pieces separator t)

end Text

end DrillCycles
