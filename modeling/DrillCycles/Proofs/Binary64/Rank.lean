import DrillCycles.Binary64.Basic
import DrillCycles.Proofs.Binary64.HalfEven
import Mathlib.Tactic.Linarith

/-!
# Ranks and rounding

`Binary64.units` places the ranks on the natural numbers.  Between two powers of two the ranks are the
multiples of one step, so every rank is `step * binadeSize + digits` with its magnitude
`digits * 2 ^ step` (`units_add`).  Rank order is numeric order (`units_lt_units`).

**Rounding.**  `nearestRank` first chooses the step and then rounds to a multiple of it.
`roundingStep` names the choice; it is the one step for which the quotient has at most fifty-three
binary digits, and all of them unless it is the smallest step (`roundingStep_eq`).  From there follow
the laws that all arithmetic rests on: magnitudes of ranks are not changed (`nearestRank_units`), and
rounding is monotone (`nearestRank_mono`), does not depend on how the quotient is written
(`nearestRank_mul_left`), and gives the nearest magnitude (`nearestRank_nearest`), which is off by at most
half a step (`isNear_nearestRank`, `units_nearestRank_le`).
-/

namespace DrillCycles.Binary64

variable {rank rank' num num' den step digits c : ℕ}

lemma binadeSize_eq : binadeSize = 4503599627370496 := rfl

lemma rankLimit_eq : rankLimit = 2047 * 4503599627370496 := rfl

lemma two_pow_fiftyTwo : 2 ^ 52 = binadeSize := rfl

lemma two_mul_binadeSize : 2 * binadeSize = 2 ^ 53 := rfl

/-- How many binary places a unit stands behind the point. -/
def unitPlaces : ℕ := 1074

lemma unitsPerOne_eq : unitsPerOne = 2 ^ unitPlaces := Nat.one_shiftLeft unitPlaces

lemma unitsPerOne_pos : 0 < unitsPerOne := by
  rw [unitsPerOne_eq]
  exact Nat.two_pow_pos unitPlaces

/-! ### Magnitudes -/

lemma units_eq (rank : ℕ) : units rank = significand rank * 2 ^ shift rank := by
  rw [units, Nat.shiftLeft_eq]

lemma significand_lt (rank : ℕ) : significand rank < 2 * binadeSize := by
  rw [significand, binadeSize_eq]
  split <;> omega

lemma shift_eq_zero_or (rank : ℕ) : shift rank = 0 ∨ binadeSize ≤ significand rank := by
  rw [shift, significand, binadeSize_eq]
  split <;> omega

/-- A rank counts the steps below its own power of two, and then its own. -/
lemma rank_eq (rank : ℕ) : rank = shift rank * binadeSize + significand rank := by
  rw [shift, significand, binadeSize_eq]
  split <;> omega

/-- The magnitude of a rank that is given by its step; the next power of two may be written with
either of two steps. -/
lemma units_add (high : digits ≤ 2 * binadeSize) (low : step = 0 ∨ binadeSize ≤ digits) :
    units (step * binadeSize + digits) = digits * 2 ^ step := by
  have hshift : digits < 2 * binadeSize →
      shift (step * binadeSize + digits) = step ∧
        significand (step * binadeSize + digits) = digits := by
    rw [shift, significand, binadeSize_eq]
    rw [binadeSize_eq] at low
    intro hlt
    split <;> omega
  rcases Nat.lt_or_eq_of_le high with hlt | rfl
  · obtain ⟨h₁, h₂⟩ := hshift hlt
    rw [units_eq, h₁, h₂]
  · have hnext : shift (step * binadeSize + 2 * binadeSize) = step + 1 ∧
        significand (step * binadeSize + 2 * binadeSize) = binadeSize := by
      rw [shift, significand, binadeSize_eq]
      split <;> omega
    rw [units_eq, hnext.1, hnext.2]
    ring

lemma units_lt_succ (rank : ℕ) : units rank < units (rank + 1) := by
  have hlt := significand_lt rank
  have hlow := shift_eq_zero_or rank
  have hnext : rank + 1 = shift rank * binadeSize + (significand rank + 1) := by
    rw [← Nat.add_assoc, ← rank_eq]
  rw [hnext, units_add (by omega) (by omega), units_eq]
  exact Nat.mul_lt_mul_of_pos_right (Nat.lt_succ_self _) (Nat.two_pow_pos _)

lemma units_strictMono : StrictMono units :=
  strictMono_nat_of_lt_succ units_lt_succ

lemma units_lt_units : units rank < units rank' ↔ rank < rank' :=
  units_strictMono.lt_iff_lt

lemma units_le_units : units rank ≤ units rank' ↔ rank ≤ rank' :=
  units_strictMono.le_iff_le

@[simp] lemma units_zero : units 0 = 0 := by
  rw [units_eq]
  simp [significand, binadeSize_eq]

lemma units_pos (h : 0 < rank) : 0 < units rank := by
  rw [← units_zero]
  exact units_lt_units.mpr h

/-! ### The step of a quotient -/

/-- The step, as a power of two, that a quotient is rounded to. -/
def roundingStep (num den : ℕ) : ℕ :=
  (num / den).log2 - 52

lemma nearestRank_eq (num den : ℕ) : nearestRank num den =
    roundingStep num den * binadeSize + divHalfEven num (den * 2 ^ roundingStep num den) := by
  rw [nearestRank, roundingStep, Nat.shiftLeft_eq]

lemma lt_of_roundingStep (pos : 0 < den) (num : ℕ) :
    num < den * 2 ^ roundingStep num den * (2 * binadeSize) := by
  have hlog : (num / den).log2 + 1 ≤ roundingStep num den + 53 := by
    rw [roundingStep]
    omega
  have hlt : num / den < 2 ^ (roundingStep num den + 53) :=
    Nat.lt_log2_self.trans_le (Nat.pow_le_pow_right Nat.two_pos hlog)
  have hpow : 2 ^ (roundingStep num den + 53) = 2 ^ roundingStep num den * (2 * binadeSize) := by
    rw [Nat.pow_add, two_mul_binadeSize]
  rw [hpow, Nat.div_lt_iff_lt_mul pos] at hlt
  linarith

lemma roundingStep_eq_zero_or (num den : ℕ) :
    roundingStep num den = 0 ∨ den * 2 ^ roundingStep num den * binadeSize ≤ num := by
  refine or_iff_not_imp_left.mpr fun hne => ?_
  have hlog : roundingStep num den + 52 = (num / den).log2 := by
    rw [roundingStep] at hne ⊢
    omega
  have hquotient : num / den ≠ 0 := by
    intro hzero
    rw [roundingStep, hzero] at hne
    exact hne rfl
  have hle : 2 ^ (roundingStep num den + 52) ≤ num / den := by
    rw [hlog]
    exact Nat.log2_self_le hquotient
  have hpow : 2 ^ (roundingStep num den + 52) = 2 ^ roundingStep num den * binadeSize := by
    rw [Nat.pow_add, two_pow_fiftyTwo]
  calc den * 2 ^ roundingStep num den * binadeSize
      = den * 2 ^ (roundingStep num den + 52) := by rw [hpow, Nat.mul_assoc]
    _ ≤ den * (num / den) := Nat.mul_le_mul_left den hle
    _ ≤ num := Nat.mul_div_le num den

/-- Both bounds together determine the step. -/
lemma roundingStep_eq (pos : 0 < den) (high : num < den * 2 ^ step * (2 * binadeSize))
    (low : step = 0 ∨ den * 2 ^ step * binadeSize ≤ num) : roundingStep num den = step := by
  have hhigh := lt_of_roundingStep pos num
  have hlow := roundingStep_eq_zero_or num den
  have hcompare : ∀ m n : ℕ, m < n → den * 2 ^ m * (2 * binadeSize) ≤ den * 2 ^ n * binadeSize := by
    intro m n hlt
    have hpow : 2 ^ (m + 1) ≤ 2 ^ n := Nat.pow_le_pow_right Nat.two_pos hlt
    calc den * 2 ^ m * (2 * binadeSize) = den * 2 ^ (m + 1) * binadeSize := by ring
      _ ≤ den * 2 ^ n * binadeSize :=
        Nat.mul_le_mul_right _ (Nat.mul_le_mul_left _ hpow)
  rcases Nat.lt_trichotomy (roundingStep num den) step with hlt | heq | hgt
  · rcases low with hzero | hle
    · omega
    · have := hcompare _ _ hlt
      omega
  · exact heq
  · rcases hlow with hzero | hle
    · omega
    · have := hcompare _ _ hgt
      omega

lemma roundingStep_mono (den : ℕ) (h : num ≤ num') : roundingStep num den ≤ roundingStep num' den := by
  have hlog : (num / den).log2 ≤ (num' / den).log2 := by
    rcases Nat.eq_zero_or_pos (num / den) with hzero | hpos
    · simp [hzero]
    · have hdiv : num / den ≤ num' / den := Nat.div_le_div_right h
      have hpow := Nat.log2_self_le hpos.ne'
      exact (Nat.le_log2 (hpos.trans_le hdiv).ne').mpr (hpow.trans hdiv)
  rw [roundingStep, roundingStep]
  omega

/-! ### The rounded rank -/

lemma step_pos (pos : 0 < den) (step : ℕ) : 0 < den * 2 ^ step :=
  Nat.mul_pos pos (Nat.two_pow_pos step)

lemma divHalfEven_le_binade (pos : 0 < den) (num : ℕ) :
    divHalfEven num (den * 2 ^ roundingStep num den) ≤ 2 * binadeSize := by
  refine divHalfEven_le_of_le (step_pos pos _) ?_
  have := lt_of_roundingStep pos num
  linarith

lemma roundingStep_eq_zero_or_le (pos : 0 < den) (num : ℕ) :
    roundingStep num den = 0 ∨ binadeSize ≤ divHalfEven num (den * 2 ^ roundingStep num den) := by
  refine (roundingStep_eq_zero_or num den).imp_right fun hle => ?_
  refine le_divHalfEven_of_le (step_pos pos _) ?_
  linarith

lemma units_nearestRank (pos : 0 < den) (num : ℕ) : units (nearestRank num den) =
    divHalfEven num (den * 2 ^ roundingStep num den) * 2 ^ roundingStep num den := by
  rw [nearestRank_eq, units_add (divHalfEven_le_binade pos num) (roundingStep_eq_zero_or_le pos num)]

/-- A quotient that rounds to `digits` steps has the rank that is given by them. -/
lemma nearestRank_eq_add (pos : 0 < den) (high : num < den * 2 ^ step * (2 * binadeSize))
    (low : step = 0 ∨ den * 2 ^ step * binadeSize ≤ num)
    (h : divHalfEven num (den * 2 ^ step) = digits) :
    nearestRank num den = step * binadeSize + digits := by
  rw [nearestRank_eq, roundingStep_eq pos high low, h]

/-- Magnitudes of ranks are not changed. -/
lemma nearestRank_units (pos : 0 < den) (rank : ℕ) : nearestRank (units rank * den) den = rank := by
  have hscale : units rank * den = significand rank * (den * 2 ^ shift rank) := by
    rw [units_eq]
    ring
  have hhigh : units rank * den < den * 2 ^ shift rank * (2 * binadeSize) := by
    rw [hscale, Nat.mul_comm]
    exact Nat.mul_lt_mul_of_pos_left (significand_lt rank) (step_pos pos _)
  have hlow : shift rank = 0 ∨ den * 2 ^ shift rank * binadeSize ≤ units rank * den := by
    refine (shift_eq_zero_or rank).imp_right fun hle => ?_
    rw [hscale, Nat.mul_comm]
    exact Nat.mul_le_mul_right _ hle
  have hdigits : divHalfEven (units rank * den) (den * 2 ^ shift rank) = significand rank := by
    rw [hscale, divHalfEven_mul_self (step_pos pos _)]
  rw [nearestRank_eq_add pos hhigh hlow hdigits, ← rank_eq]

@[simp] lemma nearestRank_units_one (rank : ℕ) : nearestRank (units rank) 1 = rank := by
  simpa using nearestRank_units Nat.one_pos rank

@[simp] lemma nearestRank_zero (pos : 0 < den) : nearestRank 0 den = 0 := by
  simpa using nearestRank_units pos 0

lemma nearestRank_mono (pos : 0 < den) (h : num ≤ num') :
    nearestRank num den ≤ nearestRank num' den := by
  rw [nearestRank_eq, nearestRank_eq]
  rcases Nat.lt_or_eq_of_le (roundingStep_mono den h) with hlt | heq
  · have hhigh := divHalfEven_le_binade pos num
    have hlow := (roundingStep_eq_zero_or_le pos num').resolve_left (by omega)
    rw [binadeSize_eq] at *
    omega
  · rw [heq]
    exact Nat.add_le_add_left (divHalfEven_mono _ h) _

/-- A quotient that is not above the magnitude of a rank is not rounded above the rank. -/
lemma nearestRank_le (pos : 0 < den) (h : num ≤ units rank * den) : nearestRank num den ≤ rank :=
  (nearestRank_mono pos h).trans_eq (nearestRank_units pos rank)

lemma nearestRank_mul_left (hc : 0 < c) (num den : ℕ) :
    nearestRank (c * num) (c * den) = nearestRank num den := by
  have hstep : roundingStep (c * num) (c * den) = roundingStep num den := by
    rw [roundingStep, roundingStep, Nat.mul_div_mul_left num den hc]
  rw [nearestRank_eq, nearestRank_eq, hstep, Nat.mul_assoc, divHalfEven_mul_left hc]

lemma nearestRank_congr (pos : 0 < den) {den' : ℕ} (pos' : 0 < den')
    (h : num * den' = num' * den) : nearestRank num den = nearestRank num' den' := by
  rw [← nearestRank_mul_left pos' num den, ← nearestRank_mul_left pos num' den',
    Nat.mul_comm den' num, h, Nat.mul_comm num' den, Nat.mul_comm den' den]

/-- **Rounding is to the nearest**: no rank has a magnitude that is nearer to the quotient. -/
theorem nearestRank_nearest (pos : 0 < den) (num rank : ℕ) :
    ((units (nearestRank num den) * den : ℕ) - num : ℤ).natAbs ≤
      ((units rank * den : ℕ) - num : ℤ).natAbs := by
  have hrounded : units (nearestRank num den) * den =
      divHalfEven num (den * 2 ^ roundingStep num den) * (den * 2 ^ roundingStep num den) := by
    rw [units_nearestRank pos]
    ring
  have hnearest := divHalfEven_nearest (step_pos pos (roundingStep num den)) num
  rw [hrounded]
  rcases Nat.lt_or_ge (shift rank) (roundingStep num den) with hlt | hge
  · -- The smallest number with this step is at least as near as those below it.
    have hbinade := (roundingStep_eq_zero_or num den).resolve_left (by omega)
    have hpow : 2 * 2 ^ shift rank ≤ 2 ^ roundingStep num den := by
      rw [← Nat.pow_succ']
      exact Nat.pow_le_pow_right Nat.two_pos hlt
    have hbelow : units rank * den ≤ binadeSize * (den * 2 ^ roundingStep num den) := by
      calc units rank * den ≤ 2 * binadeSize * 2 ^ shift rank * den := by
            rw [units_eq]
            exact Nat.mul_le_mul_right _ (Nat.mul_le_mul_right _ (significand_lt rank).le)
        _ = binadeSize * (den * (2 * 2 ^ shift rank)) := by ring
        _ ≤ binadeSize * (den * 2 ^ roundingStep num den) :=
            Nat.mul_le_mul_left _ (Nat.mul_le_mul_left _ hpow)
    have hleast := hnearest binadeSize
    rw [Nat.mul_comm binadeSize] at hleast hbelow
    omega
  · -- Every other number is a multiple of the step.
    obtain ⟨more, hmore⟩ := Nat.exists_eq_add_of_le hge
    have hmultiple : units rank * den =
        significand rank * 2 ^ more * (den * 2 ^ roundingStep num den) := by
      rw [units_eq, hmore]
      ring
    rw [hmultiple]
    exact hnearest _

/-- Two numbers with at most this distance. -/
def IsNear (m n distance : ℕ) : Prop :=
  m ≤ n + distance ∧ n ≤ m + distance

/-- Rounding moves a quotient by at most one part in `2 ^ 53`, or by half a unit. -/
lemma isNear_nearestRank (pos : 0 < den) (num : ℕ) :
    IsNear (units (nearestRank num den) * den * (2 * binadeSize)) (num * (2 * binadeSize))
      (num + den * binadeSize) := by
  have hhigh := two_mul_divHalfEven_le num (den * 2 ^ roundingStep num den)
  have hlow := two_mul_le_divHalfEven (step_pos pos (roundingStep num den)) num
  have hstep : den * 2 ^ roundingStep num den * binadeSize ≤ num + den * binadeSize := by
    rcases roundingStep_eq_zero_or num den with hzero | hle
    · rw [hzero, Nat.pow_zero, Nat.mul_one]
      exact Nat.le_add_left _ _
    · exact hle.trans (Nat.le_add_right _ _)
  have hrounded : units (nearestRank num den) * den =
      divHalfEven num (den * 2 ^ roundingStep num den) * (den * 2 ^ roundingStep num den) := by
    rw [units_nearestRank pos]
    ring
  rw [hrounded]
  generalize divHalfEven num (den * 2 ^ roundingStep num den) *
    (den * 2 ^ roundingStep num den) = rounded at hhigh hlow ⊢
  generalize den * 2 ^ roundingStep num den = step at hhigh hlow hstep
  constructor
  · calc rounded * (2 * binadeSize) = 2 * rounded * binadeSize := by ring
      _ ≤ (2 * num + step) * binadeSize := Nat.mul_le_mul_right _ hhigh
      _ = num * (2 * binadeSize) + step * binadeSize := by ring
      _ ≤ num * (2 * binadeSize) + (num + den * binadeSize) := Nat.add_le_add_left hstep _
  · calc num * (2 * binadeSize) = 2 * num * binadeSize := by ring
      _ ≤ (2 * rounded + step) * binadeSize := Nat.mul_le_mul_right _ hlow
      _ = rounded * (2 * binadeSize) + step * binadeSize := by ring
      _ ≤ rounded * (2 * binadeSize) + (num + den * binadeSize) := Nat.add_le_add_left hstep _

lemma isNear_nearestRank_one (num : ℕ) :
    IsNear (units (nearestRank num 1) * (2 * binadeSize)) (num * (2 * binadeSize))
      (num + binadeSize) := by
  simpa using isNear_nearestRank Nat.one_pos num

/-- Above the smallest step, rounding adds at most one part in `2 ^ 53`. -/
lemma units_nearestRank_le (pos : 0 < den) (h : roundingStep num den ≠ 0) :
    units (nearestRank num den) * den * (2 * binadeSize) ≤ num * (2 * binadeSize + 1) := by
  have herror := two_mul_divHalfEven_le num (den * 2 ^ roundingStep num den)
  have hstep := (roundingStep_eq_zero_or num den).resolve_left h
  rw [units_nearestRank pos]
  generalize divHalfEven num (den * 2 ^ roundingStep num den) = digits at herror ⊢
  calc digits * 2 ^ roundingStep num den * den * (2 * binadeSize)
      = 2 * (digits * (den * 2 ^ roundingStep num den)) * binadeSize := by ring
    _ ≤ (2 * num + den * 2 ^ roundingStep num den) * binadeSize := Nat.mul_le_mul_right _ herror
    _ = num * (2 * binadeSize) + den * 2 ^ roundingStep num den * binadeSize := by ring
    _ ≤ num * (2 * binadeSize) + num := Nat.add_le_add_left hstep _
    _ = num * (2 * binadeSize + 1) := by ring

end DrillCycles.Binary64
