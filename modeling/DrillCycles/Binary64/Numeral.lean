import DrillCycles.Decimal.Rounded
import DrillCycles.Decimal.Shortest

/-!
# Numbers as text

Two ways to write a number.

* **`Binary64.text`** writes the shortest decimal fraction that reads back, with a minus sign also
  before zero, and names the values that are no finite numbers.  Notices use it.
* **`Binary64.numeral`** writes a number of a program: like `text` without a precision, rounded with
  one, and never a negative zero.  A precision above `Binary64.maxPrecision` cannot be served.
-/

namespace DrillCycles

/-- Why a number could not be written. -/
inductive RenderError where
  /-- More decimal places were asked for than can be served. -/
  | precisionOutOfRange
  deriving DecidableEq, Repr

/-- The wording of a refusal. -/
def RenderError.message : RenderError → Text
  | .precisionOutOfRange => "Formatting argument out of range".toList

namespace Binary64

/-- The largest number of decimal places that can be asked for. -/
def maxPrecision : Nat := 65535

/-- The digits of `magnitude` behind a minus sign, if there is one. -/
def signed (negative : Bool) (magnitude : Text) : Text :=
  if negative then '-' :: magnitude else magnitude

/-- The number as the shortest text that reads back. -/
def text : Binary64 → Text
  | .nan => ['N', 'a', 'N']
  | .infinite negative => signed negative ['i', 'n', 'f']
  | .finite negative rank => signed negative (Decimal.shortest rank).text

/-- The decimal fraction that stands for a magnitude: the shortest one, or the rounded one. -/
def decimal (precision : Option Nat) (rank : Nat) : Decimal :=
  match precision with
  | none => .shortest rank
  | some places => .rounded places rank

/-- A decimal fraction with a sign; zero has none. -/
def signedDecimal (negative : Bool) (d : Decimal) : Text :=
  signed (negative && d.digits != 0) d.text

/-- Whether numbers can be written with this precision. -/
def servable : Option Nat → Bool
  | none => true
  | some places => places ≤ maxPrecision

/-- The number as it stands in a program. -/
def numeral (precision : Option Nat) (x : Binary64) : Except RenderError Text :=
  if servable precision then
    match x with
    | .finite negative rank => .ok (signedDecimal negative (decimal precision rank))
    | x => .ok x.text
  else .error .precisionOutOfRange

end Binary64

end DrillCycles
