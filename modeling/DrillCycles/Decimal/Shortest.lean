import DrillCycles.Binary64.Basic
import DrillCycles.Decimal.Basic

/-!
# The shortest decimal fraction that reads back

Of all decimal fractions that a reader rounds to a given number, the shortest one is found by
looking at coarser and finer *grids*: the multiples of a power of ten.

**The interval.**  A fraction is read as the number of rank `k` when it lies between the two points
half-way to the neighbours of `k`; the end points count when the significand is even.  In quarters
of a binary step the number itself is `4 * significand`, and the end points lie two quarters away ---
below a power of two only one quarter, because the steps there are half as wide.

**The grids.**  `Shortest.search` goes from a grid coarser than the number to finer ones and stops at
the first grid with a point in the interval.  Only the two neighbours of the number on a grid can lie
in it.  If both do, the nearer one is taken, and half-way the upper one.
-/

namespace DrillCycles

namespace Shortest

/-- A positive number `significand * 2 ^ exponent`, and whether the step below it is half as wide as
the step above it. -/
structure Place where
  /-- The whole number of binary steps. -/
  significand : Nat
  /-- The base-two logarithm of a step. -/
  exponent : Int
  /-- Whether the number is a power of two with a narrower step below it. -/
  narrowBelow : Bool
  deriving DecidableEq, Repr

/-- The place of the number with a given rank. -/
def Place.ofRank (rank : Nat) : Place where
  significand := Binary64.significand rank
  exponent := (Binary64.shift rank : Int) - 1074
  narrowBelow := rank % Binary64.binadeSize = 0 && 2 * Binary64.binadeSize ≤ rank

/-- The lower end of the interval, in quarters of a step. -/
def Place.low (v : Place) : Nat :=
  4 * v.significand - if v.narrowBelow then 1 else 2

/-- The upper end of the interval, in quarters of a step. -/
def Place.high (v : Place) : Nat :=
  4 * v.significand + 2

/-- A grid compared with a number: a binary step is `step / grid` grid widths wide. -/
structure Scale where
  /-- The width of a binary step. -/
  step : Nat
  /-- The distance between grid points, in the same measure. -/
  grid : Nat
  deriving DecidableEq, Repr

/-- The grid of the multiples of `10 ^ power`, compared with steps of `2 ^ exponent`. -/
def Scale.of (exponent power : Int) : Scale where
  step := powerOfTen (-power).toNat <<< exponent.toNat
  grid := powerOfTen power.toNat <<< (-exponent).toNat

/-- Whether the grid point with the given index lies in the interval. -/
def inInterval (v : Place) (s : Scale) (index : Nat) : Bool :=
  let point := 4 * index * s.grid
  if v.significand % 2 = 0 then v.low * s.step ≤ point && point ≤ v.high * s.step
  else v.low * s.step < point && point < v.high * s.step

/-- The index of the grid point to write, if the grid has one in the interval. -/
def candidate? (v : Place) (s : Scale) : Option Nat :=
  let exact := v.significand * s.step
  let below := exact / s.grid
  let above := below + 1
  if inInterval v s below then
    if inInterval v s above && above * s.grid - exact ≤ exact - below * s.grid then some above
    else some below
  else if inInterval v s above then some above
  else none

/-- The multiple `index * 10 ^ power` as a decimal fraction. -/
def onGrid (index : Nat) (power : Int) : Decimal :=
  ⟨index * powerOfTen power.toNat, (-power).toNat⟩

/-- The number itself, which always is a decimal fraction. -/
def exactly (v : Place) : Decimal :=
  let places := (-v.exponent).toNat
  ⟨(v.significand * powerOfTen places) <<< v.exponent.toNat >>> places, places⟩

/-- A power of ten that is not below the number.  The ratio `1233 / 4096` is a little less than the
decimal logarithm of two. -/
def topPower (v : Place) : Int :=
  (v.significand.log2 + v.exponent + 1) * 1233 / 4096 + 1

/-- The first grid from `power` downwards with a point in the interval gives the answer. -/
def search (v : Place) : Nat → Int → Decimal
  | 0, _ => exactly v
  | n + 1, power =>
    match candidate? v (Scale.of v.exponent power) with
    | some index => onGrid index power
    | none => search v n (power - 1)

/-- How many grids are looked at.  Seventeen digits tell all numbers apart, and `topPower` is at most
two grids too coarse. -/
def gridCount : Nat := 20

end Shortest

/-- The shortest decimal fraction that reads back as the number with this rank. -/
def Decimal.shortest (rank : Nat) : Decimal :=
  if rank = 0 then ⟨0, 0⟩
  else Shortest.search (.ofRank rank) Shortest.gridCount (Shortest.topPower (.ofRank rank))

end DrillCycles
