import DrillCycles.Binary64.Basic
import DrillCycles.Decimal.Basic

/-!
# Rounding a number to decimal places

The exact value of a number, rounded to a number of decimal places; half-way, to the even last digit.
A number with `n` binary places has exactly `n` decimal places, so a request for more is answered
with those: the places behind them would all be zero.
-/

namespace DrillCycles

namespace Decimal

/-- How many places a number with this rank can have at most. -/
def exactPlaces (rank : Nat) : Nat :=
  1074 - Binary64.shift rank

/-- The number with this rank, rounded to at most `places` decimal places. -/
def rounded (places rank : Nat) : Decimal :=
  let kept := min places (exactPlaces rank)
  ⟨divHalfEven (Binary64.units rank * powerOfTen kept) Binary64.unitsPerOne, kept⟩

end Decimal

end DrillCycles
