import DrillCycles.Decimal.Shortest
import DrillCycles.Proofs.Binary64.Rank

/-!
# The shortest decimal fraction reads back

The interval that `Shortest.search` looks into is the set of all fractions that are rounded to the
number: `Covers.nearestRank_eq` says so in quarters of a binary step.  A grid point that passes the test
of `Shortest.inInterval` lies in it, whichever grid it is taken from, and so does the number itself,
which is what the search falls back on.  Hence `nearestRank_shortest`: the fraction that is written is
rounded to the number it was written for.
-/

namespace DrillCycles

open Binary64

variable {rank num den index : ℕ} {v : Shortest.Place} {scale : Shortest.Scale} {power : ℤ}

/-- The rank that a decimal fraction is rounded to. -/
def Decimal.nearestRank (d : Decimal) : ℕ :=
  Binary64.nearestRank (d.digits * unitsPerOne) (powerOfTen d.places)

namespace Shortest

/-! ### The interval -/

/-- The fraction lies between the two points half-way to the neighbours of a number. -/
structure Covers (rank num den : ℕ) : Prop where
  low : (Place.ofRank rank).low * (den * 2 ^ shift rank) ≤ 4 * num
  high : 4 * num ≤ (4 * significand rank + 2) * (den * 2 ^ shift rank)
  odd : significand rank % 2 = 1 →
    (Place.ofRank rank).low * (den * 2 ^ shift rank) < 4 * num ∧
      4 * num < (4 * significand rank + 2) * (den * 2 ^ shift rank)

lemma le_low_add_two (rank : ℕ) : 4 * significand rank ≤ (Place.ofRank rank).low + 2 := by
  change 4 * significand rank ≤ 4 * significand rank - _ + 2
  split <;> omega

/-- At a power of two the steps below are half as wide, so the interval ends earlier there. -/
lemma low_of_narrow (hshift : shift rank ≠ 0) (hleast : significand rank = binadeSize) :
    (Place.ofRank rank).low + 1 = 4 * binadeSize := by
  have hrank := rank_eq rank
  have hnarrow : (Place.ofRank rank).narrowBelow = true := by
    rw [hleast] at hrank
    rw [Place.ofRank, Bool.and_eq_true, decide_eq_true_eq, decide_eq_true_eq]
    rw [binadeSize_eq] at *
    omega
  have hlow : (Place.ofRank rank).low = 4 * binadeSize - 1 := by
    rw [Place.low, hnarrow, ← hleast]
    rfl
  have hpos : 0 < binadeSize := by decide
  omega

/-- A covered fraction that belongs to the step of the number. -/
lemma Covers.nearestRank_of_le (h : Covers rank num den) (pos : 0 < den)
    (hstep : shift rank = 0 ∨ den * 2 ^ shift rank * binadeSize ≤ num) :
    Binary64.nearestRank num den = rank := by
  obtain ⟨low, high, odd⟩ := h
  have hwidth := step_pos pos (shift rank)
  have hsignificand := significand_lt rank
  have hlow : 4 * significand rank * (den * 2 ^ shift rank) ≤
      (Place.ofRank rank).low * (den * 2 ^ shift rank) + 2 * (den * 2 ^ shift rank) := by
    rw [← Nat.add_mul]
    exact Nat.mul_le_mul_right _ (le_low_add_two rank)
  -- An odd significand would lose a tie, but then both half-way points are excluded.
  have hdigits : divHalfEven num (den * 2 ^ shift rank) = significand rank := by
    refine divHalfEven_eq hwidth ?_ ?_ fun hodd => ?_
    · linarith
    · linarith
    · obtain ⟨h₁, h₂⟩ := odd hodd
      constructor <;> linarith
  have hlt : num < den * 2 ^ shift rank * (2 * binadeSize) := by nlinarith
  rw [nearestRank_eq_add pos hlt hstep hdigits, ← rank_eq]

/-- A covered fraction below that: the number is a power of two, and the fraction belongs to the step
below it. -/
lemma Covers.nearestRank_of_lt (h : Covers rank num den) (pos : 0 < den) (hshift : shift rank ≠ 0)
    (hbelow : num < den * 2 ^ shift rank * binadeSize) :
    Binary64.nearestRank num den = rank := by
  -- A number with a greater significand covers nothing below its own step.
  have hleast : significand rank = binadeSize := by
    refine le_antisymm ?_ ((shift_eq_zero_or rank).resolve_left hshift)
    by_contra hgt
    have hlow := h.low
    have hscaled := le_low_add_two rank
    nlinarith
  have hnarrow := low_of_narrow hshift hleast
  obtain ⟨step, hstep⟩ : ∃ step, shift rank = step + 1 := ⟨shift rank - 1, by omega⟩
  have hhalf : den * 2 ^ shift rank = 2 * (den * 2 ^ step) := by
    rw [hstep]
    ring
  have hwidth := step_pos pos step
  have hlower : 8 * binadeSize * (den * 2 ^ step) ≤ 4 * num + 2 * (den * 2 ^ step) := by
    have hlow := h.low
    rw [hhalf] at hlow
    nlinarith
  rw [hhalf] at hbelow
  -- Counted in the step below, the number is an even count, so it wins its ties.
  have hdigits : divHalfEven num (den * 2 ^ step) = 2 * binadeSize := by
    refine divHalfEven_eq hwidth ?_ ?_ fun hodd => ?_
    · linarith
    · linarith
    · omega
  have hlt : num < den * 2 ^ step * (2 * binadeSize) := by linarith
  have hle : den * 2 ^ step * binadeSize ≤ num := by
    have hone : 1 ≤ binadeSize := by decide
    nlinarith
  have hrank := rank_eq rank
  rw [nearestRank_eq_add pos hlt (Or.inr hle) hdigits, hrank, hleast, hstep]
  ring

/-- A fraction between the two points half-way to the neighbours is rounded to the number. -/
theorem Covers.nearestRank_eq (h : Covers rank num den) (pos : 0 < den) :
    Binary64.nearestRank num den = rank := by
  by_cases hstep : shift rank = 0 ∨ den * 2 ^ shift rank * binadeSize ≤ num
  · exact h.nearestRank_of_le pos hstep
  · rw [not_or, not_le] at hstep
    exact h.nearestRank_of_lt pos hstep.1 hstep.2

/-! ### The grids -/

lemma step_of (exponent power : ℤ) :
    (Scale.of exponent power).step = powerOfTen (-power).toNat * 2 ^ exponent.toNat :=
  Nat.shiftLeft_eq _ _

lemma grid_of (exponent power : ℤ) :
    (Scale.of exponent power).grid = powerOfTen power.toNat * 2 ^ (-exponent).toNat :=
  Nat.shiftLeft_eq _ _

/-- The binary places that a step and a unit have in common, and those in which they differ. -/
lemma exists_places (rank : ℕ) : ∃ common : ℕ,
    shift rank = (Place.ofRank rank).exponent.toNat + common ∧
    unitPlaces = (-(Place.ofRank rank).exponent).toNat + common := by
  have hexponent : (Place.ofRank rank).exponent = (shift rank : ℤ) - unitPlaces := rfl
  rw [hexponent]
  refine ⟨min (shift rank) unitPlaces, ?_, ?_⟩ <;> omega

lemma inInterval_cases (h : inInterval v scale index = true) :
    v.low * scale.step ≤ 4 * index * scale.grid ∧ 4 * index * scale.grid ≤ v.high * scale.step ∧
    (v.significand % 2 = 1 → v.low * scale.step < 4 * index * scale.grid ∧
      4 * index * scale.grid < v.high * scale.step) := by
  simp only [inInterval] at h
  split at h
  · next heven =>
      rw [Bool.and_eq_true, decide_eq_true_eq, decide_eq_true_eq] at h
      exact ⟨h.1, h.2, fun hodd => by omega⟩
  · rw [Bool.and_eq_true, decide_eq_true_eq, decide_eq_true_eq] at h
    exact ⟨h.1.le, h.2.le, fun _ => h⟩

/-- A grid point that passes the test is covered. -/
lemma covers_onGrid
    (h : inInterval (.ofRank rank) (.of (Place.ofRank rank).exponent power) index = true) :
    Covers rank ((onGrid index power).digits * unitsPerOne)
      (powerOfTen (onGrid index power).places) := by
  obtain ⟨common, hshift, hplaces⟩ := exists_places rank
  obtain ⟨low, high, odd⟩ := inInterval_cases h
  have hnum : (onGrid index power).digits * unitsPerOne =
      index * (Scale.of (Place.ofRank rank).exponent power).grid * 2 ^ common := by
    rw [unitsPerOne_eq, hplaces, grid_of, onGrid]
    ring
  have hden : powerOfTen (onGrid index power).places * 2 ^ shift rank =
      (Scale.of (Place.ofRank rank).exponent power).step * 2 ^ common := by
    rw [hshift, step_of, onGrid]
    ring
  have hpos : 0 < 2 ^ common := Nat.two_pow_pos common
  have hhigh : (Place.ofRank rank).high = 4 * significand rank + 2 := rfl
  rw [hhigh] at high odd
  refine ⟨?_, ?_, fun hodd => ?_⟩ <;> rw [hnum, hden]
  · simpa only [Nat.mul_assoc] using Nat.mul_le_mul_right (2 ^ common) low
  · simpa only [Nat.mul_assoc] using Nat.mul_le_mul_right (2 ^ common) high
  · obtain ⟨hlow, hhigh⟩ := odd hodd
    exact ⟨by simpa only [Nat.mul_assoc] using Nat.mul_lt_mul_of_pos_right hlow hpos,
      by simpa only [Nat.mul_assoc] using Nat.mul_lt_mul_of_pos_right hhigh hpos⟩

lemma inInterval_of_candidate? (h : candidate? v scale = some index) :
    inInterval v scale index = true := by
  simp only [candidate?] at h
  split at h
  · next hbelow =>
      split at h
      · next habove =>
          rw [Bool.and_eq_true] at habove
          rw [← Option.some.inj h]
          exact habove.1
      · rw [← Option.some.inj h]
        exact hbelow
  · split at h
    · next habove =>
        rw [← Option.some.inj h]
        exact habove
    · cases h

/-! ### The search -/

lemma powerOfTen_eq (n : ℕ) : powerOfTen n = 2 ^ n * 5 ^ n := by
  rw [← Nat.mul_pow]
  rfl

/-- The number itself, written out, is exactly its magnitude. -/
lemma nearestRank_exactly (rank : ℕ) : (exactly (.ofRank rank)).nearestRank = rank := by
  obtain ⟨common, hshift, hplaces⟩ := exists_places rank
  have hdigits : (exactly (.ofRank rank)).digits = significand rank *
      5 ^ (-(Place.ofRank rank).exponent).toNat * 2 ^ (Place.ofRank rank).exponent.toNat := by
    change (significand rank * powerOfTen _) <<< _ >>> _ = _
    rw [Nat.shiftLeft_eq, Nat.shiftRight_eq_div_pow, powerOfTen_eq]
    refine Nat.div_eq_of_eq_mul_right (Nat.two_pow_pos _) ?_
    ring
  have hvalue : (exactly (.ofRank rank)).digits * unitsPerOne =
      units rank * powerOfTen (exactly (.ofRank rank)).places := by
    change _ = _ * powerOfTen (-(Place.ofRank rank).exponent).toNat
    rw [hdigits, units_eq, unitsPerOne_eq, powerOfTen_eq]
    conv_lhs => rw [hplaces]
    conv_rhs => rw [hshift]
    ring
  rw [Decimal.nearestRank, hvalue, nearestRank_units (powerOfTen_pos _)]

lemma nearestRank_search (rank n : ℕ) (power : ℤ) :
    (search (.ofRank rank) n power).nearestRank = rank := by
  induction n generalizing power with
  | zero => exact nearestRank_exactly rank
  | succ n ih =>
      rw [search]
      split
      · next index hcandidate =>
          have hcovers := covers_onGrid (inInterval_of_candidate? hcandidate)
          exact hcovers.nearestRank_eq (powerOfTen_pos _)
      · exact ih (power - 1)

end Shortest

/-- **The shortest decimal fraction reads back.** -/
theorem Decimal.nearestRank_shortest (rank : ℕ) : (Decimal.shortest rank).nearestRank = rank := by
  rw [Decimal.shortest]
  split
  · next hzero =>
      rw [Decimal.nearestRank, Nat.zero_mul, nearestRank_zero (powerOfTen_pos 0), hzero]
  · exact Shortest.nearestRank_search rank _ _

end DrillCycles
