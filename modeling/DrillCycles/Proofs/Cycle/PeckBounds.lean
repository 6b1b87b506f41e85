import DrillCycles.Proofs.Cycle.PeckDepth
import DrillCycles.Proofs.Cycle.Snapping

/-!
# Pecks stay in the hole

No feed of a peck hole should go above the R-plane or below the final depth.  Before it is snapped, no
depth does, whatever the magnitudes (`depth_le_of_pass`).  Snapping has a step of a billionth, though, and
an end of the hole that lies between two steps may be passed: `pecks_leave_hole` has a hole for each end.

**`StaysWithin`** says what is true instead.  Snapping keeps the order, so it takes a depth no further
than it takes the ends of the hole.  An end that snapping does not move is not passed, in particular none
that is written with at most nine decimal places; and with an increment that is not as fine as the
snapping no end is passed at all (`IsCoarse`, `depths_of_coarse`).
-/

namespace DrillCycles.Peck

open Binary64

variable {rPlane depth increment d z : Binary64} {feedrate : Option Binary64} {m : Motion} {pass : ℕ}

/-- The increment is at least a billionth and, in addition, `2 ^ -50` of the end of the hole that is
further from zero. -/
def IsCoarse (rPlane depth increment : Binary64) : Prop :=
  unitsPerOne * binadeSize + 4 * max (exactUnits rPlane).natAbs (exactUnits depth).natAbs * steps ≤
    (exactUnits increment).natAbs * steps * binadeSize

/-- **A feed that stays in the hole** as far as snapping does. -/
structure StaysWithin (rPlane depth increment z : Binary64) : Prop where
  origin : z = depth ∧ depth ≤ rPlane ∨ ∃ d, depth ≤ d ∧ d ≤ rPlane ∧ z = snap d
  low : depth ≤ z ∨ snap depth ≤ z
  high : z ≤ rPlane ∨ z ≤ snap rPlane
  /-- An end that snapping does not move is not passed. -/
  low_of_unmoved : snap depth = depth → depth ≤ z
  high_of_unmoved : snap rPlane = rPlane → z ≤ rPlane
  /-- With an increment that is not too fine, no end is passed. -/
  coarse : IsCoarse rPlane depth increment → depth ≤ z ∧ z ≤ rPlane
  /-- Up to a million, an end is passed by less than a billionth. -/
  near : (exactUnits rPlane).natAbs ≤ 1000000 * unitsPerOne →
    (exactUnits depth).natAbs ≤ 1000000 * unitsPerOne →
    (exactUnits depth - exactUnits z) * steps < unitsPerOne ∧
      (exactUnits z - exactUnits rPlane) * steps < unitsPerOne

/-! ### Which feeds there are -/

lemma feed_cases (hm : m ∈ drill rPlane depth increment feedrate) (hkind : m.kind = .feed) :
    (zero < (rPlane - depth) % increment ∧ m = feedTo feedrate (some depth)) ∨
    ∃ pass, 1 ≤ pass ∧ pass < passes (wholeIncrements (rPlane - depth) increment) ∧
      m = feedTo feedrate (some (passDepth rPlane increment pass)) := by
  rcases List.mem_append.mp hm with hpass | hlast
  · obtain ⟨pass, hrange, hmove⟩ := List.mem_flatMap.mp hpass
    rw [List.mem_range'_1] at hrange
    refine Or.inr ⟨pass, by omega, by omega, ?_⟩
    rcases List.mem_cons.mp hmove with rfl | hmove
    · rfl
    · rw [List.mem_singleton.mp hmove] at hkind
      cases hkind
  · split at hlast
    · next hleft => exact Or.inl ⟨hleft, List.mem_singleton.mp hlast⟩
    · cases hlast

/-! ### The feed to the final depth -/

lemma not_zero_lt_ofRank (rank : ℕ) : ¬ zero < ofRank true rank := by
  rw [ofRank]
  split
  · exact not_finite_lt_negative _ _
  · decide

/-- Something is left of a travel only when it leads down. -/
lemma depth_le_of_remains (hr : rPlane.isFinite = true) (hz : depth.isFinite = true)
    (hq : increment.isFinite = true) (hpos : zero < increment)
    (h : zero < (rPlane - depth) % increment) : depth ≤ rPlane := by
  obtain ⟨s, r, rfl⟩ := exists_of_isFinite hr
  obtain ⟨s', z, rfl⟩ := exists_of_isFinite hz
  obtain ⟨q, rfl, hqpos⟩ := exists_of_zero_lt hpos hq
  rw [finite_le_finite_iff]
  by_contra hlt
  have hnegative : signedUnits s r - signedUnits s' z < 0 := by omega
  rw [sub_finite, if_neg hnegative.ne, decide_eq_true hnegative, nearest, ofRank] at h
  split at h
  · rw [rem_finite _ _ _ hqpos] at h
    exact not_zero_lt_ofRank _ h
  · have hnan : Binary64.infinite true % .finite false q = .nan := rfl
    rw [hnan] at h
    exact absurd h (by decide)

/-- A bound on a distance in billionths is one on what is not above the distance. -/
lemma mul_steps_lt {i : ℤ} {n : ℕ} (hi : i ≤ n) (hn : n * steps < unitsPerOne) :
    i * steps < unitsPerOne := by
  calc i * steps ≤ n * steps := Int.mul_le_mul_of_nonneg_right hi (Int.natCast_nonneg steps)
    _ < unitsPerOne := by exact_mod_cast hn

lemma staysWithin_depth (increment : Binary64) (hr : rPlane.isFinite = true)
    (hz : depth.isFinite = true) (hle : depth ≤ rPlane) :
    StaysWithin rPlane depth increment depth where
  origin := Or.inl ⟨rfl, hle⟩
  low := Or.inl (le_refl_of_isFinite hz)
  high := Or.inl hle
  low_of_unmoved := fun _ => le_refl_of_isFinite hz
  high_of_unmoved := fun _ => hle
  coarse := fun _ => ⟨le_refl_of_isFinite hz, hle⟩
  near := fun _ _ => by
    have hdistance := (le_iff_exactUnits hz hr).mp hle
    have hnone : 0 * steps < unitsPerOne := by
      rw [Nat.zero_mul]
      exact unitsPerOne_pos
    exact ⟨mul_steps_lt (by omega) hnone, mul_steps_lt (by omega) hnone⟩

/-! ### The feeds of passes -/

/-- The errors of the difference and of snapping together are below an increment that is coarse. -/
lemma errors_le_of_coarse {B U N M q snapped rounded : ℕ} (hB : 5 ≤ B) (hN : 0 < N)
    (htiny : 2 * (1 + B + N * B) ≤ U) (hcoarse : U * B + 4 * M * N ≤ q * N * B)
    (hsnapped : 2 * B * (snapped * N) ≤ 3 * (M * N) + (B + 1) * U)
    (hrounded : rounded * (2 * B) ≤ M + B) : 4 * (snapped + rounded) ≤ 3 * q := by
  have hunit : 5 * U ≤ U * B := by
    rw [Nat.mul_comm U]
    exact Nat.mul_le_mul_right U hB
  have hscaled := Nat.mul_le_mul_right N hrounded
  have hscale : 0 < B * N := Nat.mul_pos (by omega) hN
  refine Nat.le_of_mul_le_mul_right ?_ hscale
  linarith [Nat.zero_le (M * N)]

section Pass

variable (hr : rPlane.isFinite = true) (hz : depth.isFinite = true)

include hr hz

/-- What lies in the hole is not further from zero than both of its ends. -/
lemma natAbs_le_max (hlow : depth ≤ d) (hhigh : d ≤ rPlane) :
    (exactUnits d).natAbs ≤ max (exactUnits rPlane).natAbs (exactUnits depth).natAbs := by
  have hd := isFinite_of_between hz hr hlow hhigh
  rw [le_iff_exactUnits hz hd] at hlow
  rw [le_iff_exactUnits hd hr] at hhigh
  omega

variable (hq : increment.isFinite = true) (hpos : zero < increment)
variable (hlt : pass < passes (wholeIncrements (rPlane - depth) increment))

include hq hpos hlt

/-- The computed depth of a pass is the rounding of a number that is an increment below the R-plane and
most of an increment above the final depth. -/
lemma exists_exact_depth (hpass : 1 ≤ pass) : ∃ exact : ℤ,
    4 * exactUnits depth + 3 * (exactUnits increment).natAbs ≤ 4 * exact ∧
    exact + (exactUnits increment).natAbs ≤ exactUnits rPlane ∧
    (exactUnits (rPlane - ofNat pass * increment) - exact).natAbs * (2 * binadeSize) ≤
      max (exactUnits rPlane).natAbs (exactUnits depth).natAbs + binadeSize := by
  obtain ⟨s, r, rfl⟩ := exists_of_isFinite hr
  obtain ⟨s', z, rfl⟩ := exists_of_isFinite hz
  obtain ⟨q, rfl, hqpos⟩ := exists_of_zero_lt hpos hq
  obtain ⟨p, hp, hprank, hroom⟩ := exists_product_le hqpos hlt
  have hp' : signedUnits false p = units p := rfl
  have hincrement : (exactUnits (.finite false q)).natAbs = units q := rfl
  have hproduct : units q ≤ units p := by
    rw [units_le_units, hprank]
    exact (nearestRank_units_one q).symm.trans_le
      (nearestRank_mono Nat.one_pos (Nat.le_mul_of_pos_left _ hpass))
  have hlow : signedUnits s' z ≤ signedUnits s r - signedUnits false p := by omega
  have hhigh : signedUnits s r - signedUnits false p ≤ signedUnits s r := by omega
  rw [hp, hincrement, exactUnits, exactUnits]
  refine ⟨signedUnits s r - signedUnits false p, hroom, by omega, ?_⟩
  exact (sub_near hlow hhigh).trans (Nat.add_le_add_right (by omega) _)

/-- **An increment that is not too fine keeps the pecks in the hole.** -/
theorem depths_of_coarse (hpass : 1 ≤ pass) (hcoarse : IsCoarse rPlane depth increment) :
    depth ≤ passDepth rPlane increment pass ∧ passDepth rPlane increment pass ≤ rPlane := by
  obtain ⟨hlow, hhigh⟩ := depth_le_of_pass hr hz hq hpos hlt
  have hd := isFinite_of_between hz hr hlow hhigh
  obtain ⟨exact, hroom, hbelow, hrounded⟩ := exists_exact_depth hr hz hq hpos hlt hpass
  have hsnapped := (snap_near hd).trans (Nat.add_le_add_right
    (Nat.mul_le_mul_left 3 (Nat.mul_le_mul_right steps (natAbs_le_max hr hz hlow hhigh))) _)
  have herrors := errors_le_of_coarse (by decide) steps_pos binadeSize_tiny hcoarse hsnapped hrounded
  rw [passDepth, le_iff_exactUnits hz (isFinite_snap hd), le_iff_exactUnits (isFinite_snap hd) hr]
  omega

lemma staysWithin_passDepth (hpass : 1 ≤ pass) :
    StaysWithin rPlane depth increment (passDepth rPlane increment pass) := by
  obtain ⟨hlow, hhigh⟩ := depth_le_of_pass hr hz hq hpos hlt
  have hd := isFinite_of_between hz hr hlow hhigh
  have hsnapLow : snap depth ≤ passDepth rPlane increment pass := snap_mono hz hd hlow
  have hsnapHigh : passDepth rPlane increment pass ≤ snap rPlane := snap_mono hd hr hhigh
  exact {
    origin := Or.inr ⟨_, hlow, hhigh, rfl⟩
    low := Or.inr hsnapLow
    high := Or.inr hsnapHigh
    low_of_unmoved := fun hunmoved => by rwa [hunmoved] at hsnapLow
    high_of_unmoved := fun hunmoved => by rwa [hunmoved] at hsnapHigh
    coarse := depths_of_coarse hr hz hq hpos hlt hpass
    near := fun hrmax hzmax => by
      have hmax := natAbs_le_max hr hz hlow hhigh
      have hmoved := snap_near_of_le hd (by omega)
      rw [le_iff_exactUnits hz hd] at hlow
      rw [le_iff_exactUnits hd hr] at hhigh
      rw [passDepth]
      exact ⟨mul_steps_lt (by omega) hmoved, mul_steps_lt (by omega) hmoved⟩ }

end Pass

/-- **Where pecks go.**  Let R-plane, final depth and increment be finite, and the increment above zero.
Every feed goes to the final depth, which is then not above the R-plane, or to a depth between the two
that is snapped.  So it lies between the ends of the hole or what they are snapped to, it passes no end
that snapping does not move and none at all with an increment that is not too fine, and in a hole that
does not go further than a million from zero it passes none by a billionth or more.  Decimal fractions
with up to nine places are not moved, up to a million. -/
theorem pecks_stay_within (feedrate : Option Binary64) (hr : rPlane.isFinite = true)
    (hz : depth.isFinite = true) (hq : increment.isFinite = true) (hpos : zero < increment) :
    (∀ m ∈ Peck.moves (some rPlane) (some depth) increment feedrate, m.kind = .feed →
      ∃ z, m = feedTo feedrate (some z) ∧ StaysWithin rPlane depth increment z) ∧
    ∀ negative digits places, places ≤ 9 → digits ≤ 1000000 * powerOfTen places →
      snap (.ofDecimal negative digits places) = .ofDecimal negative digits places := by
  refine ⟨fun m hm hkind => ?_, fun negative digits places => snap_ofDecimal negative⟩
  rcases feed_cases hm hkind with ⟨hleft, hmove⟩ | ⟨pass, hpass, hlt, hmove⟩
  · exact ⟨depth, hmove, staysWithin_depth increment hr hz (depth_le_of_remains hr hz hq hpos hleft)⟩
  · exact ⟨_, hmove, staysWithin_passDepth hr hz hq hpos hlt hpass⟩

/-- Pecks of three tenths from one to zero: two passes and the feed to the final depth. -/
theorem pecks_stay_within_ofThreeTenths :
    (∀ m ∈ Peck.moves (some (.ofNat 1)) (some zero) (.ofDecimal false 3 1) (some (.ofNat 100)),
      m.kind = .feed → ∃ z, m = feedTo (some (.ofNat 100)) (some z) ∧
        StaysWithin (.ofNat 1) zero (.ofDecimal false 3 1) z) ∧
    feedTo (some (.ofNat 100)) (some (.ofDecimal false 7 1)) ∈
      Peck.moves (some (.ofNat 1)) (some zero) (.ofDecimal false 3 1) (some (.ofNat 100)) ∧
    IsCoarse (.ofNat 1) zero (.ofDecimal false 3 1) := by
  have hone : (Binary64.ofNat 1).isFinite = true := by decide +kernel
  have hfine : (Binary64.ofDecimal false 3 1).isFinite = true := by decide +kernel
  have hpos : zero < Binary64.ofDecimal false 3 1 := by decide +kernel
  refine ⟨(pecks_stay_within (some (.ofNat 100)) hone rfl hfine hpos).1, by decide +kernel, ?_⟩
  rw [IsCoarse]
  decide +kernel

/-- **Pecks leave a hole that is finer than the snapping.**  From `9e-10` down to `6.5e-10` in steps of
`1e-10`, the first pass is snapped to `1e-9` and goes up; from zero down to `-9e-10` in steps of
`2.6e-10`, the second one is snapped to `-1e-9` and goes too deep. -/
theorem pecks_leave_hole :
    ((Binary64.ofDecimal false 9 10).isFinite = true ∧
      (Binary64.ofDecimal false 65 11).isFinite = true ∧
      (Binary64.ofDecimal false 1 10).isFinite = true ∧ zero < Binary64.ofDecimal false 1 10 ∧
      feedTo none (some (.ofDecimal false 1 9)) ∈
        Peck.moves (some (.ofDecimal false 9 10)) (some (.ofDecimal false 65 11))
          (.ofDecimal false 1 10) none ∧
      ¬ Binary64.ofDecimal false 1 9 ≤ .ofDecimal false 9 10) ∧
    (zero.isFinite = true ∧ (Binary64.ofDecimal true 9 10).isFinite = true ∧
      (Binary64.ofDecimal false 26 11).isFinite = true ∧ zero < Binary64.ofDecimal false 26 11 ∧
      feedTo none (some (.ofDecimal true 1 9)) ∈
        Peck.moves (some zero) (some (.ofDecimal true 9 10)) (.ofDecimal false 26 11) none ∧
      ¬ Binary64.ofDecimal true 9 10 ≤ .ofDecimal true 1 9) := by
  decide +kernel

end DrillCycles.Peck
