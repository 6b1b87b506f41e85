import DrillCycles.Decimal.Rounded
import DrillCycles.Proofs.Decimal.Text

/-!
# Rounding to decimal places

`Decimal.rounded` never writes more places than the number has.  The value is that of the number
rounded to all the places that were asked for (`isEqual_rounded`), because the places it saves are
zeros.  Rounding never leads out of the finite numbers (`nearestRank_roundedTo_lt`): a large number is
whole and stays as it is.
-/

namespace DrillCycles.Decimal

open Binary64

variable {rank places : ℕ}

lemma powerOfTen_add (m n : ℕ) : powerOfTen (m + n) = powerOfTen m * powerOfTen n :=
  Nat.pow_add 10 m n

/-- The number rounded to exactly so many places. -/
def roundedTo (places rank : ℕ) : Decimal :=
  ⟨divHalfEven (units rank * powerOfTen places) unitsPerOne, places⟩

/-- With all its places a number is a whole number of the last one. -/
lemma unitsPerOne_dvd (rank : ℕ) :
    unitsPerOne ∣ units rank * powerOfTen (exactPlaces rank) := by
  have hle : unitPlaces ≤ shift rank + exactPlaces rank := by
    rw [exactPlaces, unitPlaces]
    omega
  have hsplit : units rank * powerOfTen (exactPlaces rank) =
      2 ^ (shift rank + exactPlaces rank) * (significand rank * 5 ^ exactPlaces rank) := by
    rw [units_eq, Shortest.powerOfTen_eq, Nat.pow_add]
    ring
  rw [unitsPerOne_eq, hsplit]
  exact (Nat.pow_dvd_pow 2 hle).mul_right _

lemma isEqual_rounded (places rank : ℕ) :
    (rounded places rank).IsEqual (roundedTo places rank) := by
  rcases Nat.le_total places (exactPlaces rank) with hle | hge
  · rw [rounded, Nat.min_eq_left hle]
    rfl
  · obtain ⟨n, hn⟩ := unitsPerOne_dvd rank
    obtain ⟨more, rfl⟩ := Nat.exists_eq_add_of_le hge
    have hkept : divHalfEven (units rank * powerOfTen (exactPlaces rank)) unitsPerOne = n := by
      rw [hn, Nat.mul_comm, divHalfEven_mul_self unitsPerOne_pos]
    have hasked : divHalfEven (units rank * powerOfTen (exactPlaces rank + more)) unitsPerOne =
        n * powerOfTen more := by
      rw [powerOfTen_add, ← Nat.mul_assoc, hn, Nat.mul_assoc, Nat.mul_comm,
        divHalfEven_mul_self unitsPerOne_pos]
    rw [rounded, roundedTo, Nat.min_eq_right hge, hkept, hasked, IsEqual, powerOfTen_add]
    ring

/-- A number that is whole in units of one is not changed. -/
lemma nearestRank_roundedTo_of_le (h : unitPlaces ≤ shift rank) (places : ℕ) :
    (roundedTo places rank).nearestRank = rank := by
  have hwhole : unitsPerOne ∣ units rank * powerOfTen places := by
    rw [unitsPerOne_eq, units_eq]
    exact ((Nat.pow_dvd_pow 2 h).mul_left _).mul_right _
  have hvalue : (roundedTo places rank).digits * unitsPerOne = units rank * powerOfTen places := by
    rw [roundedTo, divHalfEven_of_dvd unitsPerOne_pos hwhole, Nat.div_mul_cancel hwhole]
  rw [Decimal.nearestRank, hvalue]
  exact nearestRank_units (powerOfTen_pos places) rank

/-- Any other number is below `2 ^ 53`, and so is what it is rounded to. -/
lemma nearestRank_roundedTo_of_lt (h : shift rank < unitPlaces) (places : ℕ) :
    (roundedTo places rank).nearestRank ≤ unitPlaces * binadeSize + 2 * binadeSize := by
  refine nearestRank_le (powerOfTen_pos places) ?_
  have hlarge : units (unitPlaces * binadeSize + 2 * binadeSize) =
      2 * binadeSize * unitsPerOne := by
    rw [units_add le_rfl (Or.inr (by omega)), unitsPerOne_eq]
  have hsmall : units rank ≤ 2 * binadeSize * unitsPerOne := by
    rw [units_eq, unitsPerOne_eq]
    exact Nat.mul_le_mul (significand_lt rank).le (Nat.pow_le_pow_right Nat.two_pos h.le)
  rw [hlarge]
  change divHalfEven _ _ * unitsPerOne ≤ _ * powerOfTen places
  rw [Nat.mul_right_comm]
  refine Nat.mul_le_mul_right _ (divHalfEven_le_of_le unitsPerOne_pos ?_)
  rw [Nat.mul_right_comm]
  exact Nat.mul_le_mul_right _ hsmall

/-- Rounding never leads out of the finite numbers. -/
theorem nearestRank_roundedTo_lt (h : rank < rankLimit) (places : ℕ) :
    (roundedTo places rank).nearestRank < rankLimit := by
  rcases Nat.lt_or_ge (shift rank) unitPlaces with hlt | hge
  · have hle := nearestRank_roundedTo_of_lt hlt places
    rw [unitPlaces, binadeSize_eq] at hle
    rw [rankLimit_eq]
    omega
  · rwa [nearestRank_roundedTo_of_le hge]

end DrillCycles.Decimal
