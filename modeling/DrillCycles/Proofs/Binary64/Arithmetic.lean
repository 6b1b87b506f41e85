import DrillCycles.Binary64.Arithmetic
import DrillCycles.Proofs.Binary64.Rank

/-!
# What arithmetic gives

Every operation rounds an exact result once.  Here the results are read the other way round: from a
finite result to the operands it must have come from, and to the exact value it is the rounding of,
counted in units.

* `ofNat_eq`: the natural numbers up to `2 ^ 53` are numbers of the format.
* `mulFinite_eq`, `divFinite_eq`: the exact product and quotient, in units.
* `sub_finite`, `exists_of_div_eq`, `exists_of_floor_eq`: the operands of a finite result.
* `zero_lt_rem_iff`: something is left over unless the division comes out even.
* `unitsPerOne_dvd_of_floor_eq`: what is rounded down is whole; `ofNat_toNat` makes a natural number of
  it.
* `exists_floor_ge`: a number that reaches a whole number still does when it is rounded down.
* `units_nearestRank_one_le`: a whole number of units is rounded up by at most one part in `2 ^ 53`.
-/

namespace DrillCycles.Binary64

variable {x y : Fin rankLimit} {v w : Binary64} {s t negative : Bool} {num den n rank : ℕ}

/-! ### Numbers with a rank -/

lemma ofRank_val (negative : Bool) (rank : Fin rankLimit) :
    ofRank negative rank.val = .finite negative rank :=
  dif_pos rank.isLt

lemma isFinite_ofRank (h : rank < rankLimit) : (ofRank negative rank).isFinite = true := by
  rw [ofRank, dif_pos h]
  rfl

lemma ofRank_eq_finite_iff : ofRank negative rank = .finite s x ↔ negative = s ∧ rank = x.val := by
  constructor
  · intro h
    rw [ofRank] at h
    split at h
    · cases h
      exact ⟨rfl, rfl⟩
    · cases h
  · rintro ⟨rfl, rfl⟩
    exact ofRank_val negative x

lemma exists_of_isFinite (h : v.isFinite = true) : ∃ s x, v = .finite s x := by
  cases v with
  | finite s x => exact ⟨s, x, rfl⟩
  | _ => cases h

/-! ### Order -/

lemma finite_lt_finite : Binary64.finite false x < .finite false y ↔ x.val < y.val := by
  change decide ((x.val : ℤ) < (y.val : ℤ)) = true ↔ _
  rw [decide_eq_true_eq, Int.ofNat_lt]

lemma finite_le_finite : Binary64.finite false x ≤ .finite false y ↔ x.val ≤ y.val := by
  change decide ((x.val : ℤ) ≤ (y.val : ℤ)) = true ↔ _
  rw [decide_eq_true_eq, Int.ofNat_le]

lemma zero_eq : zero = .finite false ⟨0, by decide⟩ := rfl

lemma zero_lt_finite : zero < .finite false x ↔ 0 < x.val := finite_lt_finite

lemma not_finite_lt_negative (x y : Fin rankLimit) : ¬ Binary64.finite false x < .finite true y := by
  change ¬ decide ((x.val : ℤ) < -(y.val : ℤ)) = true
  rw [decide_eq_true_eq]
  omega

lemma negative_le_zero (x : Fin rankLimit) : Binary64.finite true x ≤ zero := by
  change decide (-(x.val : ℤ) ≤ (0 : ℤ)) = true
  rw [decide_eq_true_eq]
  omega

lemma finite_le_zero : Binary64.finite false x ≤ zero ↔ x.val = 0 := by
  change decide ((x.val : ℤ) ≤ (0 : ℤ)) = true ↔ _
  rw [decide_eq_true_eq]
  omega

lemma exists_of_zero_lt (h : zero < v) (hfinite : v.isFinite = true) :
    ∃ x : Fin rankLimit, v = .finite false x ∧ 0 < x.val := by
  obtain ⟨s, x, rfl⟩ := exists_of_isFinite hfinite
  cases s with
  | false => exact ⟨x, rfl, zero_lt_finite.mp h⟩
  | true => exact absurd h (not_finite_lt_negative _ x)

/-! ### Natural numbers -/

lemma ofNat_zero : ofNat 0 = zero := by
  rw [ofNat, nearest, Nat.zero_mul, nearestRank_zero Nat.one_pos]
  rfl

/-- Up to `2 ^ 53` steps of any size are the magnitude of a rank. -/
lemma exists_units_eq (step : ℕ) (h : n ≤ 2 * binadeSize) : ∃ rank, units rank = n * 2 ^ step := by
  induction step generalizing n with
  | zero => exact ⟨0 * binadeSize + n, units_add h (Or.inl rfl)⟩
  | succ step ih =>
      rcases Nat.lt_or_ge n binadeSize with hlt | hge
      · obtain ⟨rank, hrank⟩ := ih (n := n * 2) (by omega)
        refine ⟨rank, ?_⟩
        rw [hrank]
        ring
      · exact ⟨_, units_add h (Or.inr hge)⟩

lemma two_mul_binadeSize_le_units : 2 * binadeSize * unitsPerOne ≤
    units (unitPlaces * binadeSize + 2 * binadeSize) := by
  rw [units_add le_rfl (Or.inr (by omega)), unitsPerOne_eq]

/-- Small natural numbers are exact. -/
lemma ofNat_eq (h : n ≤ 2 * binadeSize) :
    ∃ x : Fin rankLimit, ofNat n = .finite false x ∧ units x = n * unitsPerOne := by
  obtain ⟨rank, hrank⟩ := exists_units_eq unitPlaces h
  rw [← unitsPerOne_eq] at hrank
  have hle : rank ≤ unitPlaces * binadeSize + 2 * binadeSize := by
    rw [← units_le_units, hrank]
    exact (Nat.mul_le_mul_right _ h).trans two_mul_binadeSize_le_units
  have hlt : rank < rankLimit := by
    rw [unitPlaces, binadeSize_eq] at hle
    rw [rankLimit_eq]
    omega
  refine ⟨⟨rank, hlt⟩, ?_, hrank⟩
  rw [ofNat, nearest, ← hrank, nearestRank_units_one]
  exact ofRank_val false ⟨rank, hlt⟩

/-! ### Products and quotients -/

lemma two_pow_sub_mul (m n : ℕ) : 2 ^ (m - n) * 2 ^ n = 2 ^ m * 2 ^ (n - m) := by
  rw [← Nat.pow_add, ← Nat.pow_add]
  congr 1
  omega

lemma mulFinite_eq (negative : Bool) (x y : ℕ) :
    mulFinite negative x y = nearest negative (units x * units y) unitsPerOne := by
  rw [mulFinite, nearest, nearest, Nat.one_shiftLeft, Nat.shiftLeft_eq]
  refine congrArg _ (nearestRank_congr (Nat.two_pow_pos _) unitsPerOne_pos ?_)
  have hshift := two_pow_sub_mul (shift x + shift y) unitPlaces
  rw [units_eq, units_eq, unitsPerOne_eq]
  calc significand x * significand y * 2 ^ (shift x + shift y - unitPlaces) * 2 ^ unitPlaces
      = significand x * significand y *
          (2 ^ (shift x + shift y - unitPlaces) * 2 ^ unitPlaces) := by ring
    _ = significand x * significand y *
          (2 ^ (shift x + shift y) * 2 ^ (unitPlaces - (shift x + shift y))) := by rw [hshift]
    _ = significand x * 2 ^ shift x * (significand y * 2 ^ shift y) *
          2 ^ (unitPlaces - (shift x + shift y)) := by ring

lemma divFinite_eq (negative : Bool) (hy : 0 < units y) : divFinite negative x y =
    nearest negative (units x * unitsPerOne) (units y) := by
  have hsignificand : 0 < significand y := by
    rw [units_eq] at hy
    exact Nat.pos_of_mul_pos_right hy
  rw [divFinite, nearest, nearest, Nat.shiftLeft_eq, Nat.shiftLeft_eq]
  refine congrArg _ (nearestRank_congr (Nat.mul_pos hsignificand (Nat.two_pow_pos _)) hy ?_)
  have hshift := two_pow_sub_mul (shift x + unitPlaces) (shift y)
  rw [units_eq, units_eq, unitsPerOne_eq]
  calc significand x * 2 ^ (shift x + unitPlaces - shift y) * (significand y * 2 ^ shift y)
      = significand x * significand y *
          (2 ^ (shift x + unitPlaces - shift y) * 2 ^ shift y) := by ring
    _ = significand x * significand y *
          (2 ^ (shift x + unitPlaces) * 2 ^ (shift y - (shift x + unitPlaces))) := by rw [hshift]
    _ = significand x * 2 ^ shift x * 2 ^ unitPlaces *
          (significand y * 2 ^ (shift y - (shift x + unitPlaces))) := by ring

lemma div_finite (s : Bool) (x : Fin rankLimit) (hy : 0 < y.val) :
    Binary64.finite s x / .finite false y = nearest s (units x * unitsPerOne) (units y) := by
  change (if y.val = 0 then _ else _) = _
  rw [if_neg hy.ne', divFinite_eq _ (units_pos hy), Bool.bne_false]

/-- A finite positive quotient by a positive number. -/
lemma exists_of_div_eq (hy : 0 < y.val) (h : v / .finite false y = .finite false x) :
    ∃ z : Fin rankLimit, v = .finite false z ∧
      x.val = nearestRank (units z * unitsPerOne) (units y) := by
  cases v with
  | nan => cases h
  | infinite s => cases h
  | finite s z =>
      rw [div_finite _ _ hy, nearest, ofRank_eq_finite_iff] at h
      obtain ⟨rfl, hrank⟩ := h
      exact ⟨z, rfl, hrank.symm⟩

lemma rem_finite (s t : Bool) (x : Fin rankLimit) (hy : 0 < y.val) :
    Binary64.finite s x % .finite t y = nearest s (units x % units y) 1 :=
  if_neg hy.ne'

/-- What is left is above zero unless the division comes out even. -/
lemma zero_lt_rem_iff (x : Fin rankLimit) (hy : 0 < y.val) :
    zero < Binary64.finite false x % .finite false y ↔ ¬ units y.val ∣ units x.val := by
  have hunits : 0 < units y.val := units_pos hy
  have hlt : nearestRank (units x % units y) 1 < rankLimit := by
    refine (nearestRank_le Nat.one_pos ?_).trans_lt y.isLt
    rw [Nat.mul_one]
    exact (Nat.mod_lt _ hunits).le
  rw [rem_finite _ _ _ hy, nearest, ofRank, dif_pos hlt, zero_lt_finite, Nat.dvd_iff_mod_eq_zero]
  constructor
  · intro hpos heven
    simp [heven, nearestRank_zero] at hpos
  · intro hodd
    have hone : units 1 * 1 ≤ units x % units y := by
      have hone : units 1 = 1 := by decide
      omega
    exact (nearestRank_units Nat.one_pos 1).symm.trans_le (nearestRank_mono Nat.one_pos hone)

/-! ### Whole parts -/

/-- A whole number is rounded to a whole number. -/
lemma unitsPerOne_dvd_units_nearestRank (n : ℕ) :
    unitsPerOne ∣ units (nearestRank (n * unitsPerOne) 1) := by
  rw [units_nearestRank Nat.one_pos, Nat.one_mul, unitsPerOne_eq]
  generalize roundingStep (n * 2 ^ unitPlaces) 1 = step
  rcases Nat.le_total step unitPlaces with hle | hge
  · -- The step is a part of one, and nothing is rounded.
    have hdvd : 2 ^ step ∣ n * 2 ^ unitPlaces := (Nat.pow_dvd_pow 2 hle).mul_left n
    rw [divHalfEven_of_dvd (Nat.two_pow_pos step) hdvd, Nat.div_mul_cancel hdvd]
    exact Nat.dvd_mul_left _ _
  · exact (Nat.pow_dvd_pow 2 hge).mul_left _

/-- What is rounded down is whole. -/
lemma unitsPerOne_dvd_of_floor_eq (h : v.floor = .finite s x) : unitsPerOne ∣ units x := by
  cases v with
  | nan => cases h
  | infinite t => cases h
  | finite t z =>
      rw [floor] at h
      split at h
      · next hwhole =>
          cases h
          exact Nat.dvd_of_mod_eq_zero hwhole
      · rw [nearest, ofRank_eq_finite_iff] at h
        rw [← h.2]
        exact unitsPerOne_dvd_units_nearestRank _

/-- A whole number up to `2 ^ 53` is the natural number that it is cut off to. -/
lemma ofNat_toNat (hwhole : unitsPerOne ∣ units x) (hle : units x ≤ 2 * binadeSize * unitsPerOne) :
    ofNat (Binary64.finite false x).toNat = .finite false x := by
  have hmul : (Binary64.finite false x).toNat * unitsPerOne = units x := Nat.div_mul_cancel hwhole
  have hsmall : (Binary64.finite false x).toNat ≤ 2 * binadeSize :=
    Nat.le_of_mul_le_mul_right (hmul.trans_le hle) unitsPerOne_pos
  obtain ⟨y, hy, hunits⟩ := ofNat_eq hsmall
  rw [hy, Fin.ext (units_strictMono.injective (hunits.trans hmul))]

/-- What is rounded down to a positive number is positive, and not below it. -/
lemma exists_of_floor_eq (h : v.floor = .finite false x) :
    ∃ z : Fin rankLimit, v = .finite false z ∧ units x ≤ units z := by
  cases v with
  | nan => cases h
  | infinite s => cases h
  | finite s z =>
      rw [floor] at h
      split at h
      · cases h
        exact ⟨x, rfl, le_rfl⟩
      · rw [nearest, ofRank_eq_finite_iff] at h
        obtain ⟨rfl, hrank⟩ := h
        refine ⟨z, rfl, ?_⟩
        rw [← hrank, units_le_units]
        refine nearestRank_le Nat.one_pos ?_
        rw [if_neg Bool.false_ne_true, Nat.mul_one]
        exact Nat.div_mul_le_self _ _

/-- A negative number is rounded down to a negative one. -/
lemma exists_floor_negative (rank : ℕ) : ∃ rank', (ofRank true rank).floor = ofRank true rank' := by
  rw [ofRank]
  split
  · next h =>
      rw [floor]
      split
      · exact ⟨rank, by rw [ofRank, dif_pos h]⟩
      · exact ⟨_, rfl⟩
  · next h => exact ⟨rank, by rw [ofRank, dif_neg h]; rfl⟩

/-- Whole numbers up to `2 ^ 53` that a number reaches, its whole part reaches. -/
lemma exists_floor_ge (hn : n ≤ 2 * binadeSize) (hle : n * unitsPerOne ≤ units x)
    (hfinite : (Binary64.finite false x).floor.isFinite = true) :
    ∃ y : Fin rankLimit, (Binary64.finite false x).floor = .finite false y ∧
      n * unitsPerOne ≤ units y := by
  rw [floor] at hfinite ⊢
  split at hfinite
  · next hwhole => exact ⟨x, if_pos hwhole, hle⟩
  · next hwhole =>
      rw [if_neg hwhole]
      obtain ⟨s, y, hy⟩ := exists_of_isFinite hfinite
      obtain ⟨rfl, hrank⟩ := ofRank_eq_finite_iff.mp hy
      refine ⟨y, hy, ?_⟩
      obtain ⟨m, -, hm⟩ := ofNat_eq hn
      rw [← hrank, if_neg Bool.false_ne_true, ← hm, units_le_units,
        ← nearestRank_units_one m.val, hm]
      refine nearestRank_mono Nat.one_pos (Nat.mul_le_mul_right _ ?_)
      exact (Nat.le_div_iff_mul_le unitsPerOne_pos).mpr hle

/-! ### Differences -/

lemma sub_finite (s t : Bool) (x y : Fin rankLimit) :
    Binary64.finite s x - .finite t y =
      if signedUnits s x - signedUnits t y = 0 then ofRank (s && !t) 0
      else nearest (decide (signedUnits s x - signedUnits t y < 0))
        (signedUnits s x - signedUnits t y).natAbs 1 := rfl

/-- A finite positive difference is the rounding of a positive whole number of units. -/
lemma exists_of_sub_eq {z : Fin rankLimit} (hz : 0 < z.val)
    (h : Binary64.finite s x - .finite t y = .finite false z) :
    ∃ difference : ℕ, signedUnits s x - signedUnits t y = difference ∧
      z.val = nearestRank difference 1 := by
  rw [sub_finite] at h
  split at h
  · rw [ofRank_eq_finite_iff] at h
    omega
  · rw [nearest, ofRank_eq_finite_iff, decide_eq_false_iff_not] at h
    refine ⟨_, ?_, h.2.symm⟩
    rw [Int.natAbs_of_nonneg (not_lt.mp h.1)]

/-! ### Relative errors -/

/-- A whole number of units is rounded up by at most one part in `2 ^ 53`. -/
lemma units_nearestRank_one_le (num : ℕ) :
    units (nearestRank num 1) * (2 * binadeSize) ≤ num * (2 * binadeSize + 1) := by
  by_cases hstep : roundingStep num 1 = 0
  · rw [units_nearestRank Nat.one_pos, hstep, Nat.pow_zero, Nat.mul_one, divHalfEven_one]
    exact Nat.mul_le_mul_left _ (Nat.le_succ _)
  · have herror := units_nearestRank_le Nat.one_pos hstep
    rwa [Nat.mul_one] at herror

/-- So is a quotient, unless it is tiny. -/
lemma units_nearestRank_le_of_lt (pos : 0 < den)
    (h : 2 * binadeSize < units (nearestRank num den)) :
    units (nearestRank num den) * den * (2 * binadeSize) ≤ num * (2 * binadeSize + 1) := by
  refine units_nearestRank_le pos fun hstep => ?_
  have hle := divHalfEven_le_binade pos num
  rw [units_nearestRank pos, hstep, Nat.pow_zero, Nat.mul_one] at h
  rw [hstep, Nat.pow_zero] at hle
  omega

end DrillCycles.Binary64
