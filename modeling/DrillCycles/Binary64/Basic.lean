import DrillCycles.Rounding

/-!
# Double-precision numbers

A number of the double-precision binary format, given by its exact value and not by a machine word.

**Ranks.**  The non-negative finite numbers of the format form a finite ascending list; the *rank* of
a number is its place in it, from `0` for zero.  Rank order is numeric order, the neighbours of a
number have the neighbouring ranks, and a rank is the magnitude part of the usual bit pattern.

**Units.**  Every finite number is a whole multiple of the smallest positive one, `2 ^ -1074`.
`Binary64.units` is that multiple.  Sums, differences and remainders of finite numbers are therefore
exact on natural numbers, and one function rounds: `Binary64.nearest`.
-/

namespace DrillCycles

namespace Binary64

/-- How many ranks there are from one power of two to the next. -/
def binadeSize : Nat := 1 <<< 52

/-- How many ranks there are: finite numbers have ranks below it, and it stands for infinity. -/
def rankLimit : Nat := 2047 * binadeSize

/-- The number of units in the number one. -/
def unitsPerOne : Nat := 1 <<< 1074

end Binary64

/-- A number of the double-precision binary format.  All bit patterns that are not numbers are one
value, `nan`; zero has two signs. -/
inductive Binary64 where
  /-- The result of an operation that has no numeric value. -/
  | nan
  /-- An infinity. -/
  | infinite (negative : Bool)
  /-- A finite number: its sign and the rank of its magnitude. -/
  | finite (negative : Bool) (rank : Fin Binary64.rankLimit)
  deriving DecidableEq, Repr

namespace Binary64

/-- The whole number of binary steps that a rank counts, at most fifty-three bits. -/
def significand (rank : Nat) : Nat :=
  if rank < binadeSize then rank else binadeSize + rank % binadeSize

/-- The base-two logarithm of the step between ranks at this place, in units. -/
def shift (rank : Nat) : Nat :=
  rank / binadeSize - 1

/-- The magnitude with this rank, in units of `2 ^ -1074`. -/
def units (rank : Nat) : Nat :=
  significand rank <<< shift rank

/-- The number with the given sign and rank.  Ranks past the last finite number are infinite. -/
def ofRank (negative : Bool) (rank : Nat) : Binary64 :=
  if h : rank < rankLimit then .finite negative ⟨rank, h⟩ else .infinite negative

/-- The rank of the magnitude nearest to `num / den` units; half-way, the one with the even
significand.  Ranks may exceed `rankLimit`, as if the format had no largest exponent. -/
def nearestRank (num den : Nat) : Nat :=
  let step := (num / den).log2 - 52
  step * binadeSize + divHalfEven num (den <<< step)

/-- The number nearest to `num / den` units, with the given sign. -/
def nearest (negative : Bool) (num den : Nat) : Binary64 :=
  ofRank negative (nearestRank num den)

/-- The number nearest to a natural number. -/
def ofNat (n : Nat) : Binary64 :=
  nearest false (n * unitsPerOne) 1

/-- The number nearest to the decimal fraction `digits / 10 ^ places`. -/
def ofDecimal (negative : Bool) (digits places : Nat) : Binary64 :=
  nearest negative (digits * unitsPerOne) (powerOfTen places)

/-- Positive zero. -/
def zero : Binary64 :=
  ofRank false 0

/-- The number with the given 64-bit pattern. -/
def ofBits (bits : Nat) : Binary64 :=
  let rank := bits % (1 <<< 63)
  if rankLimit < rank then .nan else ofRank (bits.testBit 63) rank

/-- Whether a number is neither infinite nor `nan`. -/
def isFinite : Binary64 → Bool
  | .finite .. => true
  | _ => false

end Binary64

end DrillCycles
