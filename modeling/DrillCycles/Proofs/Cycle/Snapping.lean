import DrillCycles.Cycle.Peck
import DrillCycles.Proofs.Binary64.Order

/-!
# Snapping

`Peck.snap` scales a depth to billionths, rounds it to a whole number, and scales it back.  Each of the
three steps rounds a magnitude, and the sign stays in front of it: `snappedRank` is what happens to the
magnitude (`snap_finite`).

* **`snap_mono`**: snapped depths are in the order of the depths.  Where scaling overflows, the depth
  stays as it is, and a smaller depth for which it does not is not snapped above it.
* **`snap_near`**: a depth is moved by half a billionth and a few rounding errors at most, for depths up
  to a million by less than a billionth (`snap_near_of_le`).
* **`snap_ofDecimal`**: decimal fractions with up to nine places are not moved.
-/

namespace DrillCycles

variable {num num' den n rank rank' digits places : ℕ}

/-! ### The nearest whole number -/

lemma divHalfUp_mono (den : ℕ) (h : num ≤ num') : divHalfUp num den ≤ divHalfUp num' den :=
  Nat.div_le_div_right (by omega)

lemma divHalfUp_eq (low : 2 * (n * den) ≤ 2 * num + den) (high : 2 * num < 2 * (n * den) + den) :
    divHalfUp num den = n := by
  have hsucc : (n + 1) * (2 * den) = 2 * (n * den) + 2 * den := by ring
  have hmul : n * (2 * den) = 2 * (n * den) := by ring
  exact Nat.div_eq_of_lt_le (by omega) (by omega)

/-- The nearest whole number is off by at most one half. -/
lemma divHalfUp_error (pos : 0 < den) (num : ℕ) :
    2 * (divHalfUp num den * den) ≤ 2 * num + den ∧
      2 * num < 2 * (divHalfUp num den * den) + den := by
  have hdiv := Nat.div_add_mod (2 * num + den) (2 * den)
  have hmod : (2 * num + den) % (2 * den) < 2 * den := Nat.mod_lt _ (by omega)
  rw [divHalfUp]
  generalize (2 * num + den) / (2 * den) = whole at hdiv ⊢
  have hmul : 2 * den * whole = 2 * (whole * den) := by ring
  omega

namespace Binary64

/-- The rank of the whole number nearest to a magnitude. -/
def roundedRank (rank : ℕ) : ℕ :=
  nearestRank (divHalfUp (units rank) unitsPerOne * unitsPerOne) 1

lemma round_finite (s : Bool) (x : Fin rankLimit) :
    (Binary64.finite s x).round = ofRank s (roundedRank x) := rfl

/-- From `2 ^ 52` on there are only whole numbers. -/
lemma unitsPerOne_dvd_or (rank : ℕ) :
    unitsPerOne ∣ units rank ∨ units rank < binadeSize * unitsPerOne := by
  rw [units_eq, unitsPerOne_eq]
  rcases Nat.lt_or_ge (shift rank) unitPlaces with hlt | hge
  · have hpow : 2 * 2 ^ shift rank ≤ 2 ^ unitPlaces := by
      rw [← Nat.pow_succ']
      exact Nat.pow_le_pow_right Nat.two_pos hlt
    refine Or.inr ?_
    calc significand rank * 2 ^ shift rank < 2 * binadeSize * 2 ^ shift rank :=
          Nat.mul_lt_mul_of_pos_right (significand_lt rank) (Nat.two_pow_pos _)
      _ = binadeSize * (2 * 2 ^ shift rank) := by ring
      _ ≤ binadeSize * 2 ^ unitPlaces := Nat.mul_le_mul_left _ hpow
  · exact Or.inl ((Nat.pow_dvd_pow 2 hge).mul_left _)

/-- The nearest whole number is a number of the format. -/
lemma exists_roundedRank (h : rank < rankLimit) : ∃ x : Fin rankLimit, roundedRank rank = x.val ∧
    units x = divHalfUp (units rank) unitsPerOne * unitsPerOne := by
  have hexact : ∀ x, units x = divHalfUp (units rank) unitsPerOne * unitsPerOne →
      roundedRank rank = x := by
    intro x hx
    rw [roundedRank, ← hx, nearestRank_units_one]
  rcases unitsPerOne_dvd_or rank with ⟨n, hn⟩ | hsmall
  · have hwhole : divHalfUp (units rank) unitsPerOne = n := by
      have hpos := unitsPerOne_pos
      rw [Nat.mul_comm] at hn
      exact divHalfUp_eq (by omega) (by omega)
    have hrank : units rank = divHalfUp (units rank) unitsPerOne * unitsPerOne := by
      rw [hwhole, hn, Nat.mul_comm]
    exact ⟨⟨rank, h⟩, hexact rank hrank, hrank⟩
  · have hle : divHalfUp (units rank) unitsPerOne ≤ 2 * binadeSize := by
      have herror := (divHalfUp_error unitsPerOne_pos (units rank)).1
      refine Nat.le_of_mul_le_mul_right ?_ unitsPerOne_pos
      have hbinade : 0 < binadeSize := by decide
      have hmul : unitsPerOne ≤ binadeSize * unitsPerOne := Nat.le_mul_of_pos_left _ hbinade
      have htwo : 2 * binadeSize * unitsPerOne = 2 * (binadeSize * unitsPerOne) := by ring
      omega
    obtain ⟨x, -, hx⟩ := ofNat_eq hle
    exact ⟨x, hexact x hx, hx⟩

end Binary64

namespace Peck

open Binary64

/-! ### The rank of a snapped depth -/

/-- The number of snapping steps in one unit of length, as a natural number. -/
def steps : ℕ := 1000000000

lemma steps_pos : 0 < steps := by decide

/-- The rank of a magnitude in billionths; past the limit, scaling overflows. -/
def scaledRank (rank : ℕ) : ℕ :=
  nearestRank (units rank * steps) 1

/-- The rank of a snapped magnitude. -/
def snappedRank (rank : ℕ) : ℕ :=
  if scaledRank rank < rankLimit then nearestRank (units (roundedRank (scaledRank rank))) steps
  else rank

lemma stepsPerUnit_eq : ∃ b : Fin rankLimit, stepsPerUnit = .finite false b ∧
    units b = steps * unitsPerOne :=
  ofNat_eq (by decide)

lemma snappedRank_lt (h : rank < rankLimit) : snappedRank rank < rankLimit := by
  rw [snappedRank]
  split
  · next hscaled =>
      obtain ⟨x, hx, -⟩ := exists_roundedRank hscaled
      have hle : units x ≤ units x * steps := Nat.le_mul_of_pos_right _ steps_pos
      rw [hx]
      exact (nearestRank_le steps_pos hle).trans_lt x.isLt
  · exact h

lemma mul_stepsPerUnit (s : Bool) (x : Fin rankLimit) :
    Binary64.finite s x * stepsPerUnit = ofRank s (scaledRank x) := by
  obtain ⟨b, hb, hunits⟩ := stepsPerUnit_eq
  rw [hb]
  change mulFinite (s != false) x b = _
  rw [Bool.bne_false, mulFinite_eq, nearest, scaledRank, hunits]
  refine congrArg _ (nearestRank_congr unitsPerOne_pos Nat.one_pos ?_)
  ring

lemma div_stepsPerUnit (s : Bool) (x : Fin rankLimit) :
    Binary64.finite s x / stepsPerUnit = ofRank s (nearestRank (units x) steps) := by
  obtain ⟨b, hb, hunits⟩ := stepsPerUnit_eq
  have hpos : 0 < b.val := by
    rw [← units_lt_units, units_zero, hunits]
    exact Nat.mul_pos steps_pos unitsPerOne_pos
  rw [hb, div_finite s x hpos, nearest, hunits]
  refine congrArg _ (nearestRank_congr (Nat.mul_pos steps_pos unitsPerOne_pos) steps_pos ?_)
  ring

/-- **Snapping works on magnitudes.** -/
theorem snap_finite (s : Bool) (x : Fin rankLimit) :
    snap (.finite s x) = .finite s ⟨snappedRank x, snappedRank_lt x.isLt⟩ := by
  rw [snap, mul_stepsPerUnit]
  by_cases hscaled : scaledRank x < rankLimit
  · obtain ⟨y, hy, -⟩ := exists_roundedRank hscaled
    have hrank : snappedRank x = nearestRank (units y) steps := by
      rw [snappedRank, if_pos hscaled, hy]
    have hrounded : (ofRank s (scaledRank x)).round / stepsPerUnit =
        .finite s ⟨snappedRank x, snappedRank_lt x.isLt⟩ := by
      have hround := round_finite s ⟨scaledRank x, hscaled⟩
      rw [← ofRank_val] at hround
      rw [hround, hy, ofRank_val, div_stepsPerUnit, ← hrank]
      exact ofRank_val s ⟨_, snappedRank_lt x.isLt⟩
    rw [hrounded]
    exact if_pos rfl
  · have hinfinite : ((ofRank s (scaledRank x)).round / stepsPerUnit).isFinite = false := by
      obtain ⟨b, hb, -⟩ := stepsPerUnit_eq
      rw [ofRank, dif_neg hscaled, hb]
      rfl
    have hrank : x = ⟨snappedRank x, snappedRank_lt x.isLt⟩ := Fin.ext (if_neg hscaled).symm
    rw [hinfinite, ← hrank]
    exact if_neg Bool.false_ne_true

/-! ### Order -/

lemma scaledRank_mono (h : rank ≤ rank') : scaledRank rank ≤ scaledRank rank' :=
  nearestRank_mono Nat.one_pos (Nat.mul_le_mul_right _ (units_le_units.mpr h))

lemma roundedRank_mono (h : rank ≤ rank') : roundedRank rank ≤ roundedRank rank' :=
  nearestRank_mono Nat.one_pos
    (Nat.mul_le_mul_right _ (divHalfUp_mono _ (units_le_units.mpr h)))

lemma snappedRank_mono : Monotone snappedRank := by
  intro rank rank' h
  rw [snappedRank, snappedRank]
  by_cases hscaled : scaledRank rank < rankLimit
  · rw [if_pos hscaled]
    by_cases hscaled' : scaledRank rank' < rankLimit
    · rw [if_pos hscaled']
      exact nearestRank_mono steps_pos
        (units_le_units.mpr (roundedRank_mono (scaledRank_mono h)))
    · rw [if_neg hscaled']
      obtain ⟨x, hx, -⟩ := exists_roundedRank hscaled
      refine nearestRank_le steps_pos ?_
      rw [hx]
      -- The larger depth in billionths is above every finite number.
      by_contra hlt
      have hle : scaledRank rank' ≤ x :=
        nearestRank_le Nat.one_pos (by rw [Nat.mul_one]; exact (not_le.mp hlt).le)
      exact hscaled' (hle.trans_lt x.isLt)
  · have hscaled' : ¬ scaledRank rank' < rankLimit := fun hlt =>
      hscaled ((scaledRank_mono h).trans_lt hlt)
    rwa [if_neg hscaled, if_neg hscaled']

lemma snappedRank_zero : snappedRank 0 = 0 := by
  have hscaled : scaledRank 0 = 0 := by simp [scaledRank, nearestRank_zero Nat.one_pos]
  have hrounded : roundedRank 0 = 0 := by
    have hwhole : divHalfUp 0 unitsPerOne = 0 := by
      have hpos := unitsPerOne_pos
      exact divHalfUp_eq (by omega) (by omega)
    rw [roundedRank, units_zero, hwhole, Nat.zero_mul, nearestRank_zero Nat.one_pos]
  rw [snappedRank, hscaled, hrounded, units_zero, nearestRank_zero steps_pos, ite_self]

/-- **Snapped depths are in the order of the depths.** -/
theorem snap_mono {v w : Binary64} (hv : v.isFinite = true) (hw : w.isFinite = true) (h : v ≤ w) :
    snap v ≤ snap w := by
  obtain ⟨s, x, rfl⟩ := exists_of_isFinite hv
  obtain ⟨t, y, rfl⟩ := exists_of_isFinite hw
  rw [finite_le_finite_iff_rank] at h
  rw [snap_finite, snap_finite, finite_le_finite_iff_rank, ← mirror_withSign snappedRank_zero,
    ← mirror_withSign snappedRank_zero]
  exact mirror_mono snappedRank_mono snappedRank_zero h

/-! ### How far a depth is moved -/

lemma binadeSize_tiny : 2 * (1 + binadeSize + steps * binadeSize) ≤ unitsPerOne := by
  have hle : 2 * (1 + binadeSize + steps * binadeSize) ≤ 2 ^ 84 := by decide
  rw [unitsPerOne_eq]
  exact hle.trans (Nat.pow_le_pow_right Nat.two_pos (by decide))

/-- The errors of the three steps together, on magnitudes in billionths. -/
lemma isNear_of_errors {B U N exact scaled whole snapped : ℕ} (hB : 0 < B)
    (htiny : 2 * (1 + B + N * B) ≤ U)
    (hscaled : IsNear (scaled * (2 * B)) (exact * (2 * B)) (exact + B))
    (hwhole : IsNear (2 * whole) (2 * scaled) U)
    (hsnapped : IsNear (snapped * (2 * B)) (whole * (2 * B)) (whole + N * B)) :
    IsNear (2 * B * snapped) (2 * B * exact) (3 * exact + (B + 1) * U) := by
  have hhigh := Nat.mul_le_mul_left B hwhole.1
  have hlow := Nat.mul_le_mul_left B hwhole.2
  have hbound : scaled ≤ 2 * exact + 1 := by
    have hexact : exact ≤ B * exact := Nat.le_mul_of_pos_left _ hB
    refine Nat.le_of_mul_le_mul_left ?_ hB
    linarith [hscaled.1]
  constructor <;> linarith [hscaled.1, hscaled.2, hwhole.1, hsnapped.1, hsnapped.2]

/-- A magnitude is moved by half a step and three rounding errors at most. -/
lemma isNear_snappedRank (rank : ℕ) :
    IsNear (2 * binadeSize * (units (snappedRank rank) * steps))
      (2 * binadeSize * (units rank * steps))
      (3 * (units rank * steps) + (binadeSize + 1) * unitsPerOne) := by
  rw [snappedRank]
  split
  · next hscaled =>
      obtain ⟨x, hx, hwhole⟩ := exists_roundedRank hscaled
      have herror := divHalfUp_error unitsPerOne_pos (units (scaledRank rank))
      rw [← hwhole] at herror
      rw [hx]
      exact isNear_of_errors (by decide) binadeSize_tiny (isNear_nearestRank_one _)
        ⟨herror.1, herror.2.le⟩ (isNear_nearestRank steps_pos (units x))
  · exact ⟨Nat.le_add_right _ _, Nat.le_add_right _ _⟩

/-- **A depth is moved by half a billionth and three rounding errors at most.** -/
theorem snap_near {v : Binary64} (hv : v.isFinite = true) :
    2 * binadeSize * ((exactUnits (snap v) - exactUnits v).natAbs * steps) ≤
      3 * ((exactUnits v).natAbs * steps) + (binadeSize + 1) * unitsPerOne := by
  obtain ⟨s, x, rfl⟩ := exists_of_isFinite hv
  have hnear := isNear_snappedRank x
  have hmagnitude : (exactUnits (.finite s x)).natAbs = units x := natAbs_withSign s (units x)
  have hassoc : ∀ m : ℕ, 2 * binadeSize * (m * steps) = m * (2 * binadeSize * steps) := fun m => by
    ring
  rw [hassoc, hassoc] at hnear
  rw [snap_finite, hmagnitude, hassoc]
  exact natAbs_withSign_sub_mul_le s hnear

/-- Up to a million, a depth is moved by less than a billionth. -/
theorem snap_near_of_le {v : Binary64} (hv : v.isFinite = true)
    (h : (exactUnits v).natAbs ≤ 1000000 * unitsPerOne) :
    (exactUnits (snap v) - exactUnits v).natAbs * steps < unitsPerOne := by
  have hnear := snap_near hv
  have hroom : 3 * (1000000 * steps) + (binadeSize + 1) < 2 * binadeSize := by decide
  have hpos := unitsPerOne_pos
  have hbound : 2 * binadeSize * ((exactUnits (snap v) - exactUnits v).natAbs * steps) <
      2 * binadeSize * unitsPerOne := by
    calc _ ≤ 3 * ((exactUnits v).natAbs * steps) + (binadeSize + 1) * unitsPerOne := hnear
      _ ≤ 3 * (1000000 * unitsPerOne * steps) + (binadeSize + 1) * unitsPerOne :=
          Nat.add_le_add_right (Nat.mul_le_mul_left _ (Nat.mul_le_mul_right _ h)) _
      _ = (3 * (1000000 * steps) + (binadeSize + 1)) * unitsPerOne := by ring
      _ < 2 * binadeSize * unitsPerOne := Nat.mul_lt_mul_of_pos_right hroom hpos
  exact Nat.lt_of_mul_lt_mul_left hbound

/-! ### Decimal fractions -/

/-- The errors of two steps do not lead to another whole number. -/
lemma whole_of_errors {B U N n exact scaled : ℕ} (htiny : 2 * (1 + B + N * B) ≤ U) (hB : 5 ≤ B)
    (hn : 4 * n ≤ B)
    (hexact : IsNear (exact * (2 * B)) (n * U * (2 * B)) (n * U + N * B))
    (hscaled : IsNear (scaled * (2 * B)) (exact * (2 * B)) (exact + B)) :
    2 * (n * U) ≤ 2 * scaled + U ∧ 2 * scaled < 2 * (n * U) + U := by
  have hpos : 0 < B := by omega
  have hroom : 4 * (n * U) ≤ B * U := by
    rw [← Nat.mul_assoc]
    exact Nat.mul_le_mul_right U hn
  have hunit : 5 * U ≤ B * U := Nat.mul_le_mul_right U hB
  have hN : N ≤ N * B := Nat.le_mul_of_pos_right _ hpos
  have hbound : exact ≤ 2 * (n * U) + N := by
    have hwhole : n * U ≤ B * (n * U) := Nat.le_mul_of_pos_left _ hpos
    refine Nat.le_of_mul_le_mul_left ?_ hpos
    linarith [hexact.1, Nat.zero_le (n * U), Nat.zero_le (N * B)]
  constructor
  · refine Nat.le_of_mul_le_mul_left ?_ hpos
    linarith [hexact.2, hscaled.2]
  · refine Nat.lt_of_mul_lt_mul_left (a := B) ?_
    linarith [hexact.1, hscaled.1]

/-- Whole numbers of billionths, up to `10 ^ 15` of them, are not moved. -/
lemma snappedRank_nearestRank (h : n ≤ 1000000 * steps) :
    snappedRank (nearestRank (n * unitsPerOne) steps) = nearestRank (n * unitsPerOne) steps := by
  have hroom : 4 * n ≤ binadeSize := by
    have hmax : 4 * (1000000 * steps) ≤ binadeSize := by decide
    omega
  set rank := nearestRank (n * unitsPerOne) steps with hrank
  have hexact := isNear_nearestRank steps_pos (n * unitsPerOne)
  have hscaled := isNear_nearestRank_one (units rank * steps)
  rw [← scaledRank] at hscaled
  rw [← hrank] at hexact
  obtain ⟨hlow, hhigh⟩ := whole_of_errors binadeSize_tiny (by decide) hroom hexact hscaled
  have hwhole : divHalfUp (units (scaledRank rank)) unitsPerOne = n := divHalfUp_eq hlow hhigh
  have hlt : scaledRank rank < rankLimit := by
    have hbinade : 0 < binadeSize := by decide
    obtain ⟨x, -, hx⟩ := ofNat_eq (n := n + 1) (by omega)
    refine lt_trans (units_lt_units.mp ?_) x.isLt
    rw [hx, Nat.add_mul]
    omega
  obtain ⟨x, hx, hunits⟩ := exists_roundedRank hlt
  rw [snappedRank, if_pos hlt, hx, hunits, hwhole]

/-- **Decimal fractions with up to nine places**, up to a million, are not moved. -/
theorem snap_ofDecimal (negative : Bool) (hplaces : places ≤ 9)
    (hdigits : digits ≤ 1000000 * powerOfTen places) :
    snap (.ofDecimal negative digits places) = .ofDecimal negative digits places := by
  have hpower : powerOfTen (9 - places) * powerOfTen places = steps := by
    rw [powerOfTen, powerOfTen, Nat.pow_eq, Nat.pow_eq, ← Nat.pow_add, Nat.sub_add_cancel hplaces]
    rfl
  set n := digits * powerOfTen (9 - places)
  have hn : n ≤ 1000000 * steps := by
    calc n ≤ 1000000 * powerOfTen places * powerOfTen (9 - places) := Nat.mul_le_mul_right _ hdigits
      _ = 1000000 * steps := by rw [← hpower]; ring
  have hrank : nearestRank (digits * unitsPerOne) (powerOfTen places) =
      nearestRank (n * unitsPerOne) steps := by
    refine nearestRank_congr (powerOfTen_pos places) steps_pos ?_
    rw [← hpower]
    ring
  have hlt : nearestRank (n * unitsPerOne) steps < rankLimit := by
    have hbinade : 1000000 * steps ≤ 2 * binadeSize := by decide
    obtain ⟨x, -, hx⟩ := ofNat_eq (hn.trans hbinade)
    refine (nearestRank_le steps_pos ?_).trans_lt x.isLt
    rw [hx]
    exact Nat.le_mul_of_pos_right _ steps_pos
  have hdecimal : ofDecimal negative digits places = .finite negative ⟨_, hlt⟩ := by
    rw [ofDecimal, nearest, hrank]
    exact ofRank_val negative ⟨_, hlt⟩
  rw [hdecimal, snap_finite]
  exact congrArg _ (Fin.ext (snappedRank_nearestRank hn))

end Peck

end DrillCycles
