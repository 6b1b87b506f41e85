import DrillCycles.Text.Blank

/-!
# Tags of canned drilling cycles

Six codes open, close and invoke a canned drilling cycle.  A code counts as a tag wherever it stands
in a line, unless a digit or a point follows it: `G980` and `G81.1` are other codes.  Letters are
matched in upper case only.

* **`Tag.heads`** is the one test that all else is built from: a text starts with a tag.
* **`Tag.find?`** gives the tag that occurs first in a text.
* **`Tag.count`** counts occurrences.
* **`Tag.strip`** takes all occurrences out of a line, each with one space behind it.
-/

namespace DrillCycles

/-- A code that opens, closes or invokes a canned drilling cycle. -/
inductive Tag where
  /-- Opens a cycle whose holes are left towards the height from before the cycle. -/
  | startInitialPlane
  /-- Opens a cycle whose holes are left towards the R-plane. -/
  | startRPlane
  /-- Closes the cycle. -/
  | stop
  /-- Drills a hole. -/
  | drill
  /-- Drills a hole and dwells at its bottom. -/
  | drillDwell
  /-- Drills a hole in several pecks. -/
  | peckDrill
  deriving DecidableEq, Repr

namespace Tag

/-- The tags that open a cycle. -/
def starts : List Tag := [.startInitialPlane, .startRPlane]

/-- The tags that close a cycle. -/
def stops : List Tag := [.stop]

/-- The tags that invoke a hole. -/
def holes : List Tag := [.drill, .drillDwell, .peckDrill]

/-- The code of a tag. -/
def code : Tag → Text
  | .startInitialPlane => ['G', '9', '8']
  | .startRPlane => ['G', '9', '9']
  | .stop => ['G', '8', '0']
  | .drill => ['G', '8', '1']
  | .drillDwell => ['G', '8', '2']
  | .peckDrill => ['G', '8', '3']

/-- Whether a code that stands before this text ends there. -/
def endsBefore : Text → Bool
  | [] => true
  | c :: _ => !(c.isDigit || c == '.')

/-- Whether a text starts with this tag. -/
def heads (tag : Tag) (t : Text) : Bool :=
  tag.code.isPrefixOf t && endsBefore (t.drop tag.code.length)

/-- The candidate that occurs first in the text. -/
def find? (candidates : List Tag) : Text → Option Tag
  | [] => none
  | c :: t =>
    match candidates.find? (·.heads (c :: t)) with
    | some tag => some tag
    | none => find? candidates t

/-- The occurrences of a tag in a text, added to those counted before. -/
def countFrom (tag : Tag) (counted : Nat) : Text → Nat
  | [] => counted
  | c :: t => countFrom tag (if tag.heads (c :: t) then counted + 1 else counted) t

/-- The number of occurrences of all candidates in a text.  A candidate listed twice counts twice. -/
def count (candidates : List Tag) (t : Text) : Nat :=
  candidates.foldl (fun counted tag => tag.countFrom counted t) 0

/-- How many characters behind its first one go when a tag at the start of the text is removed. -/
def restLength (tag : Tag) (t : Text) : Nat :=
  if (t.drop tag.code.length).head? = some ' ' then tag.code.length else tag.code.length - 1

/-- Walks through a text and leaves out every occurrence of a tag.  The characters kept so far stand
in `kept`, the last one first; `skip` more characters are left out before the next test. -/
def removeFrom (tag : Tag) (kept : Text) (skip : Nat) : Text → Text
  | [] => kept.reverse
  | c :: t =>
    match skip with
    | n + 1 => removeFrom tag kept n t
    | 0 =>
      if tag.heads (c :: t) then removeFrom tag kept (tag.restLength (c :: t)) t
      else removeFrom tag (c :: kept) 0 t

/-- A text without the occurrences of a tag, each taken out with one space behind it. -/
def remove (tag : Tag) (t : Text) : Text :=
  removeFrom tag [] 0 t

/-- A line without the occurrences of the candidates, which are removed one after the other, and
without the blanks at the two ends of what is left. -/
def strip (candidates : List Tag) (line : Text) : Text :=
  Text.trim (candidates.foldl (fun t tag => tag.remove t) line)

end Tag

end DrillCycles
