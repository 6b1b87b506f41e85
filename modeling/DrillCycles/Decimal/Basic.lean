import DrillCycles.Rounding
import DrillCycles.Text.Basic

/-!
# Decimal fractions and their positional text

A decimal fraction is a whole number of digits and the count of them that stand behind the point.
The value does not change when a zero behind the point is taken away; **`Decimal.reduce`** takes all
of them away, and **`Decimal.text`** writes what is left: whole part, and a point with the other
digits if there are any.  There is never an exponent.
-/

namespace DrillCycles

/-- The non-negative decimal fraction `digits / 10 ^ places`. -/
structure Decimal where
  /-- All digits, read as one natural number. -/
  digits : Nat
  /-- How many of the digits stand behind the point. -/
  places : Nat
  deriving DecidableEq, Repr

namespace Decimal

/-- The same fraction without the zeros at its end behind the point. -/
def reduceFrom (digits : Nat) : Nat → Decimal
  | 0 => ⟨digits, 0⟩
  | n + 1 => if digits % 10 = 0 then reduceFrom (digits / 10) n else ⟨digits, n + 1⟩

/-- The same fraction with the fewest places. -/
def reduce (d : Decimal) : Decimal :=
  reduceFrom d.digits d.places

/-- The digits behind the point, filled up with zeros to the number of places. -/
def fractionText (digits places : Nat) : Text :=
  let written := Text.ofNat digits
  List.replicate (places - written.length) '0' ++ written

/-- The fraction as it is, every place written out. -/
def paddedText (d : Decimal) : Text :=
  if d.places = 0 then Text.ofNat d.digits
  else Text.ofNat (d.digits / powerOfTen d.places) ++
    '.' :: fractionText (d.digits % powerOfTen d.places) d.places

/-- The fraction in positional notation, without superfluous zeros. -/
def text (d : Decimal) : Text :=
  d.reduce.paddedText

end Decimal

end DrillCycles
