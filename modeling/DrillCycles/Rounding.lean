/-!
# Quotients rounded to natural numbers, and powers of ten

Two ways to turn an exact quotient of natural numbers into the nearest natural number.  They differ
only where the quotient lies half-way between two neighbours: **`divHalfEven`** takes the even one,
**`divHalfUp`** the upper one.

**`powerOfTen`** names the powers that decimal fractions are made of.  Powers of two are written as
shifts of one.
-/

namespace DrillCycles

/-- Ten to the given power. -/
def powerOfTen (n : Nat) : Nat :=
  Nat.pow 10 n

@[simp] theorem powerOfTen_zero : powerOfTen 0 = 1 := rfl

theorem powerOfTen_succ (n : Nat) : powerOfTen (n + 1) = powerOfTen n * 10 := rfl

theorem powerOfTen_pos (n : Nat) : 0 < powerOfTen n :=
  Nat.pow_pos (by decide)

/-- The natural number nearest to `num / den`; half-way, the even neighbour. -/
def divHalfEven (num den : Nat) : Nat :=
  let whole := num / den
  let twice := 2 * (num % den)
  if twice < den then whole
  else if den < twice then whole + 1
  else whole + whole % 2

/-- The natural number nearest to `num / den`; half-way, the upper neighbour. -/
def divHalfUp (num den : Nat) : Nat :=
  (2 * num + den) / (2 * den)

/-- A quotient without a remainder is its own rounding. -/
theorem divHalfEven_of_dvd {num den : Nat} (pos : 0 < den) (h : den ∣ num) :
    divHalfEven num den = num / den := by
  simp [divHalfEven, Nat.mod_eq_zero_of_dvd h, pos]

/-- Rounding moves the quotient up by less than one. -/
theorem le_divHalfEven (num den : Nat) : num / den ≤ divHalfEven num den := by
  dsimp only [divHalfEven]
  split
  · exact Nat.le_refl _
  · split <;> omega

/-- Rounding never passes the next natural number. -/
theorem divHalfEven_le (num den : Nat) : divHalfEven num den ≤ num / den + 1 := by
  dsimp only [divHalfEven]
  split
  · omega
  · split <;> omega

end DrillCycles
