import DrillCycles.Cycle.Peck
import DrillCycles.Proofs.Binary64.Order

/-!
# The depths of passes

The depth of a pass is computed in four steps that are each rounded: the product of the number of the
pass and the increment, the difference from the R-plane, and the scaling up and down of `Peck.snap`.  Any
of them could overflow, and so could the travel and the quotient that the number of passes is taken
from.

They do not.  There are passes only when travel and quotient are finite (`exists_travel`).  Up to the
rounding errors, each of them at most one part in `2 ^ 53`, all passes but the last end above the final
depth, and there are at most a hundred thousand of them (`units_le_of_errors`).  So a pass lies between
the R-plane and the final depth (`depth_le_of_pass`), and these are finite (`isFinite_passDepth`).
-/

namespace DrillCycles.Peck

open Binary64

variable {rPlane depth increment increments travel : Binary64} {q t : Fin rankLimit} {pass : ℕ}

/-! ### The number of passes -/

lemma maxPasses_le : maxPasses ≤ 2 * binadeSize := by decide

lemma isFinite_of_isMeant (h : isMeant increments = true) : increments.isFinite = true := by
  rw [isMeant, Bool.and_eq_true] at h
  exact h.1

lemma isMeant_negative (x : Fin rankLimit) : isMeant (.finite true x) = true := by
  obtain ⟨limit, hlimit, -⟩ := ofNat_eq maxPasses_le
  rw [isMeant, hlimit, decide_eq_false (not_finite_lt_negative limit x)]
  rfl

lemma isMeant_positive_iff (x : Fin rankLimit) :
    isMeant (.finite false x) = true ↔ units x ≤ maxPasses * unitsPerOne := by
  obtain ⟨limit, hlimit, hunits⟩ := ofNat_eq maxPasses_le
  rw [isMeant, hlimit, Bool.and_eq_true, Bool.not_eq_true', decide_eq_false_iff_not,
    finite_lt_finite, not_lt, ← units_le_units, hunits]
  exact and_iff_right rfl

lemma passes_of_isMeant (h : isMeant increments = true) : passes increments = increments.toNat :=
  if_pos h

lemma passes_le_maxPasses (increments : Binary64) : passes increments ≤ maxPasses := by
  rw [passes]
  split
  · next hmeant =>
      cases increments with
      | finite s x =>
          cases s with
          | true => exact Nat.zero_le _
          | false =>
              rw [isMeant_positive_iff] at hmeant
              exact (Nat.div_le_div_right hmeant).trans_eq (Nat.mul_div_cancel _ unitsPerOne_pos)
      | _ => exact Nat.zero_le _
  · exact Nat.zero_le _

/-- Passes are whole increments of a finite count. -/
lemma exists_of_passes_pos (h : 0 < passes increments) : ∃ x : Fin rankLimit,
    increments = .finite false x ∧ passes increments * unitsPerOne ≤ units x := by
  rw [passes] at h ⊢
  split at h
  · next hmeant =>
      rw [if_pos hmeant]
      cases increments with
      | finite s x =>
          cases s with
          | true => exact absurd h (Nat.lt_irrefl 0)
          | false => exact ⟨x, rfl, Nat.div_mul_le_self _ _⟩
      | _ => exact absurd h (Nat.lt_irrefl 0)
  · omega

/-- A travel that has passes is finite, and up to the error of the quotient the passes fit into it. -/
lemma exists_travel (hq : 0 < q.val)
    (h : 0 < passes (wholeIncrements travel (.finite false q))) :
    ∃ t : Fin rankLimit, travel = .finite false t ∧
      passes (wholeIncrements travel (.finite false q)) * units q * (2 * binadeSize) ≤
        units t * (2 * binadeSize + 1) := by
  obtain ⟨x, hx, hcount⟩ := exists_of_passes_pos h
  obtain ⟨y, hy, hfloor⟩ := exists_of_floor_eq hx
  obtain ⟨t, rfl, hquotient⟩ := exists_of_div_eq hq hy
  refine ⟨t, rfl, ?_⟩
  set count := passes (wholeIncrements (.finite false t) (.finite false q))
  have hunits : 0 < units q.val := units_pos hq
  -- The relative error is bounded only above the smallest step; a quotient of one or more is there.
  have hone : unitsPerOne ≤ units y :=
    (Nat.le_mul_of_pos_left _ h).trans (hcount.trans hfloor)
  have htiny : 2 * binadeSize < unitsPerOne := by
    rw [two_mul_binadeSize, unitsPerOne_eq]
    exact Nat.pow_lt_pow_right Nat.one_lt_two (by decide)
  rw [hquotient] at hone hfloor
  have herror := units_nearestRank_le_of_lt hunits (htiny.trans_le hone)
  refine Nat.le_of_mul_le_mul_left ?_ unitsPerOne_pos
  calc unitsPerOne * (count * units q * (2 * binadeSize))
      = count * unitsPerOne * units q * (2 * binadeSize) := by ring
    _ ≤ _ * units q * (2 * binadeSize) :=
        Nat.mul_le_mul_right _ (Nat.mul_le_mul_right _ (hcount.trans hfloor))
    _ ≤ units t * unitsPerOne * (2 * binadeSize + 1) := herror
    _ = unitsPerOne * (units t * (2 * binadeSize + 1)) := by ring

/-! ### The depth of a pass -/

/-- The product of the number of a pass and the increment, as long as it fits into a finite travel. -/
lemma exists_product (hpass : pass ≤ maxPasses) (hfits : pass * units q ≤ units t) :
    ∃ p : Fin rankLimit, ofNat pass * .finite false q = .finite false p ∧
      p.val = nearestRank (pass * units q) 1 := by
  obtain ⟨m, hm, hunits⟩ := ofNat_eq (hpass.trans maxPasses_le)
  have hrank : nearestRank (units m * units q) unitsPerOne = nearestRank (pass * units q) 1 := by
    refine nearestRank_congr unitsPerOne_pos Nat.one_pos ?_
    rw [hunits]
    ring
  have hlt : nearestRank (pass * units q) 1 < rankLimit :=
    (nearestRank_le Nat.one_pos (by rwa [Nat.mul_one])).trans_lt t.isLt
  have hproduct : ofNat pass * .finite false q = mulFinite false m q := by rw [hm]; rfl
  refine ⟨⟨_, hlt⟩, ?_, rfl⟩
  rw [hproduct, mulFinite_eq, nearest, hrank, ofRank_eq_finite_iff]
  exact ⟨rfl, rfl⟩

/-- A quarter of an increment is more than three rounding errors of all passes together. -/
lemma pass_mul_le {count : ℕ} (hlt : pass < count) (hcount : count ≤ maxPasses) :
    4 * (pass * (2 * binadeSize + 1) ^ 3) + 3 * (2 * binadeSize * (2 * binadeSize + 1) ^ 2) ≤
      4 * (count * (2 * binadeSize) ^ 3) := by
  have herrors : 4 * (maxPasses * (3 * (2 * binadeSize) ^ 2 + 3 * (2 * binadeSize) + 1)) +
      3 * (2 * (2 * binadeSize) ^ 2 + 2 * binadeSize) ≤ (2 * binadeSize) ^ 3 := by decide
  generalize 2 * binadeSize = e at herrors ⊢
  have hpass : pass * (3 * e ^ 2 + 3 * e + 1) ≤ maxPasses * (3 * e ^ 2 + 3 * e + 1) :=
    Nat.mul_le_mul_right _ (hlt.le.trans hcount)
  have hnext : (pass + 1) * e ^ 3 ≤ count * e ^ 3 := Nat.mul_le_mul_right _ hlt
  linarith

/-- A pass before the last one leaves room for the errors of quotient, travel and product, and for most
of an increment. -/
lemma units_le_of_errors {count product difference travel increment : ℕ} (hlt : pass < count)
    (hcount : count ≤ maxPasses)
    (hquotient : count * increment * (2 * binadeSize) ≤ travel * (2 * binadeSize + 1))
    (htravel : travel * (2 * binadeSize) ≤ difference * (2 * binadeSize + 1))
    (hproduct : product * (2 * binadeSize) ≤ pass * increment * (2 * binadeSize + 1)) :
    pass * increment ≤ travel ∧ 4 * product + 3 * increment ≤ 4 * difference := by
  have hroom := pass_mul_le hlt hcount
  have hpos : 0 < 2 * binadeSize := by decide
  generalize 2 * binadeSize = e at hquotient htravel hproduct hroom hpos
  constructor
  · have hscale : 0 < count * e ^ 3 := Nat.mul_pos (by omega) (Nat.pow_pos hpos)
    refine Nat.le_of_mul_le_mul_right ?_ hscale
    calc pass * increment * (count * e ^ 3) = pass * e ^ 2 * (count * increment * e) := by ring
      _ ≤ pass * e ^ 2 * (travel * (e + 1)) := Nat.mul_le_mul_left _ hquotient
      _ ≤ pass * (e + 1) ^ 2 * (travel * (e + 1)) :=
          Nat.mul_le_mul_right _ (Nat.mul_le_mul_left _ (Nat.pow_le_pow_left (Nat.le_succ e) 2))
      _ = travel * (pass * (e + 1) ^ 3) := by ring
      _ ≤ travel * (count * e ^ 3) := Nat.mul_le_mul_left _ (by omega)
  · have hscale : 0 < e * (e + 1) ^ 2 := Nat.mul_pos hpos (Nat.pow_pos (Nat.succ_pos e))
    refine Nat.le_of_mul_le_mul_right ?_ hscale
    calc (4 * product + 3 * increment) * (e * (e + 1) ^ 2)
        = 4 * (e + 1) ^ 2 * (product * e) + 3 * increment * (e * (e + 1) ^ 2) := by ring
      _ ≤ 4 * (e + 1) ^ 2 * (pass * increment * (e + 1)) + 3 * increment * (e * (e + 1) ^ 2) :=
          Nat.add_le_add_right (Nat.mul_le_mul_left _ hproduct) _
      _ = increment * (4 * (pass * (e + 1) ^ 3) + 3 * (e * (e + 1) ^ 2)) := by ring
      _ ≤ increment * (4 * (count * e ^ 3)) := Nat.mul_le_mul_left _ hroom
      _ = 4 * e ^ 2 * (count * increment * e) := by ring
      _ ≤ 4 * e ^ 2 * (travel * (e + 1)) := Nat.mul_le_mul_left _ hquotient
      _ = 4 * e * (e + 1) * (travel * e) := by ring
      _ ≤ 4 * e * (e + 1) * (difference * (e + 1)) := Nat.mul_le_mul_left _ htravel
      _ = 4 * difference * (e * (e + 1) ^ 2) := by ring

/-- The product of a pass before the last one leaves most of an increment of the exact travel. -/
lemma exists_product_le {s s' : Bool} {r z : Fin rankLimit} (hq : 0 < q.val)
    (hlt : pass < passes (wholeIncrements (.finite s r - .finite s' z) (.finite false q))) :
    ∃ p : Fin rankLimit, ofNat pass * .finite false q = .finite false p ∧
      p.val = nearestRank (pass * units q) 1 ∧
      4 * signedUnits s' z + 3 * units q ≤ 4 * (signedUnits s r - signedUnits false p) := by
  obtain ⟨t, ht, hquotient⟩ := exists_travel hq (Nat.zero_lt_of_lt hlt)
  set count := passes (wholeIncrements (.finite s r - .finite s' z) (.finite false q))
  have hqunits : 0 < units q.val := units_pos hq
  -- A travel of zero has no room for a pass, and there is one.
  have htpos : 0 < t.val := by
    rw [Nat.pos_iff_ne_zero]
    intro hzero
    rw [hzero, units_zero, Nat.zero_mul, Nat.le_zero, Nat.mul_eq_zero, Nat.mul_eq_zero] at hquotient
    have hbinade : 2 * binadeSize ≠ 0 := by decide
    omega
  obtain ⟨difference, hdifference, htrank⟩ := exists_of_sub_eq htpos ht
  have htravel := units_nearestRank_one_le difference
  have hproduct := units_nearestRank_one_le (pass * units q)
  rw [← htrank] at htravel
  obtain ⟨hfits, hroom⟩ :=
    units_le_of_errors hlt (passes_le_maxPasses _) hquotient htravel hproduct
  obtain ⟨p, hp, hprank⟩ := exists_product (hlt.le.trans (passes_le_maxPasses _)) hfits
  rw [← hprank] at hroom
  have hunits : signedUnits false p = units p := rfl
  exact ⟨p, hp, hprank, by omega⟩

/-- **The depth of a pass before the last one lies in the hole**, before it is snapped. -/
theorem depth_le_of_pass (hr : rPlane.isFinite = true) (hz : depth.isFinite = true)
    (hq : increment.isFinite = true) (hpos : zero < increment)
    (hlt : pass < passes (wholeIncrements (rPlane - depth) increment)) :
    depth ≤ rPlane - ofNat pass * increment ∧ rPlane - ofNat pass * increment ≤ rPlane := by
  obtain ⟨s, r, rfl⟩ := exists_of_isFinite hr
  obtain ⟨s', z, rfl⟩ := exists_of_isFinite hz
  obtain ⟨q, rfl, hqpos⟩ := exists_of_zero_lt hpos hq
  obtain ⟨p, hp, -, hroom⟩ := exists_product_le hqpos hlt
  have hunits : signedUnits false p = units p := rfl
  rw [hp]
  exact sub_between (by omega) (by omega)

theorem isFinite_snap (h : depth.isFinite = true) : (snap depth).isFinite = true := by
  rw [snap]
  split
  · assumption
  · exact h

/-- **Depths of passes are finite.** -/
theorem isFinite_passDepth (hr : rPlane.isFinite = true) (hz : depth.isFinite = true)
    (hq : increment.isFinite = true) (hpos : zero < increment)
    (hlt : pass < passes (wholeIncrements (rPlane - depth) increment)) :
    (passDepth rPlane increment pass).isFinite = true := by
  obtain ⟨hlow, hhigh⟩ := depth_le_of_pass hr hz hq hpos hlt
  exact isFinite_snap (isFinite_of_between hz hr hlow hhigh)

end DrillCycles.Peck
