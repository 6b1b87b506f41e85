import DrillCycles.Proofs.Binary64.Arithmetic

/-!
# The order of signed numbers

A magnitude is rounded without its sign, so what rounding does to numbers on both sides of zero is the
odd function that extends what it does to magnitudes.

* **`mirror`** is this extension, and it is monotone (`mirror_mono`).
* **`finite_le_finite_iff`** says that finite numbers are in the order of their exact values.
* **`sub_between`** says that a rounded difference does not leave an interval that the exact one lies in.
-/

namespace DrillCycles.Binary64

variable {f : ℕ → ℕ} {s t s' t' : Bool} {x y z w : Fin rankLimit} {v : Binary64} {i j : ℤ}

/-! ### Functions of magnitudes behind a sign -/

/-- A magnitude with a sign. -/
def withSign (negative : Bool) (n : ℕ) : ℤ :=
  if negative then -(n : ℤ) else n

/-- A function of magnitudes on whole numbers: the sign is kept. -/
def mirror (f : ℕ → ℕ) (i : ℤ) : ℤ :=
  withSign (decide (i < 0)) (f i.natAbs)

lemma withSign_eq_or (s : Bool) (n : ℕ) : withSign s n = n ∨ withSign s n = -(n : ℤ) := by
  cases s
  · exact Or.inl rfl
  · exact Or.inr rfl

@[simp] lemma natAbs_withSign (s : Bool) (n : ℕ) : (withSign s n).natAbs = n := by
  rcases withSign_eq_or s n with h | h <;> simp [h]

lemma exists_withSign (i : ℤ) : ∃ s n, i = withSign s n := by
  obtain ⟨n, rfl | rfl⟩ := i.eq_nat_or_neg
  · exact ⟨false, n, rfl⟩
  · exact ⟨true, n, rfl⟩

lemma mirror_withSign (hzero : f 0 = 0) (s : Bool) (n : ℕ) :
    mirror f (withSign s n) = withSign s (f n) := by
  cases s with
  | false => simp [mirror, withSign]
  | true =>
      cases n with
      | zero => simp [mirror, withSign, hzero]
      | succ n =>
          have hneg : -((n + 1 : ℕ) : ℤ) < 0 := by omega
          simp only [mirror, withSign, if_true, hneg, decide_true, Int.natAbs_neg, Int.natAbs_natCast]

lemma mirror_mono (hf : Monotone f) (hzero : f 0 = 0) (hij : i ≤ j) : mirror f i ≤ mirror f j := by
  obtain ⟨s, m, rfl⟩ := exists_withSign i
  obtain ⟨t, n, rfl⟩ := exists_withSign j
  rw [mirror_withSign hzero, mirror_withSign hzero]
  cases s <;> cases t <;> simp only [withSign, if_true, Bool.false_eq_true, if_false] at hij ⊢
  · exact Int.ofNat_le.mpr (hf (Int.ofNat_le.mp hij))
  · -- Both are zero.
    obtain rfl : m = 0 := by omega
    obtain rfl : n = 0 := by omega
    omega
  · omega
  · exact neg_le_neg (Int.ofNat_le.mpr (hf (by omega)))

/-! ### Order -/

lemma signedUnits_eq (s : Bool) (rank : ℕ) : signedUnits s rank = withSign s (units rank) := rfl

/-- The rank of a whole number of units with a sign. -/
def signedNearestRank (i : ℤ) : ℤ :=
  mirror (nearestRank · 1) i

lemma signedNearestRank_mono (hij : i ≤ j) : signedNearestRank i ≤ signedNearestRank j :=
  mirror_mono (fun _ _ h => nearestRank_mono Nat.one_pos h) (nearestRank_zero Nat.one_pos) hij

lemma signedNearestRank_withSign (s : Bool) (n : ℕ) :
    signedNearestRank (withSign s n) = withSign s (nearestRank n 1) := by
  have hzero : nearestRank 0 1 = 0 := nearestRank_zero Nat.one_pos
  rw [signedNearestRank, mirror_withSign hzero]

/-- Exact values are not changed by rounding. -/
lemma signedNearestRank_signedUnits (s : Bool) (rank : ℕ) :
    signedNearestRank (signedUnits s rank) = withSign s rank := by
  rw [signedUnits_eq, signedNearestRank_withSign, nearestRank_units_one]

lemma finite_le_finite_iff_rank :
    Binary64.finite s x ≤ .finite t y ↔ withSign s x ≤ withSign t y := by
  change decide (withSign s x ≤ withSign t y) = true ↔ _
  exact decide_eq_true_iff

/-- **Finite numbers are in the order of their exact values.** -/
theorem finite_le_finite_iff :
    Binary64.finite s x ≤ .finite t y ↔ signedUnits s x ≤ signedUnits t y := by
  rw [finite_le_finite_iff_rank]
  constructor
  · intro h
    rw [signedUnits_eq, signedUnits_eq, ← mirror_withSign units_zero, ← mirror_withSign units_zero]
    exact mirror_mono units_strictMono.monotone units_zero h
  · intro h
    rw [← signedNearestRank_signedUnits, ← signedNearestRank_signedUnits]
    exact signedNearestRank_mono h

/-- What lies between finite numbers is finite. -/
lemma isFinite_of_between {v w d : Binary64} (hv : v.isFinite = true) (hw : w.isFinite = true)
    (hlow : v ≤ d) (hhigh : d ≤ w) : d.isFinite = true := by
  obtain ⟨s, x, rfl⟩ := exists_of_isFinite hv
  obtain ⟨t, y, rfl⟩ := exists_of_isFinite hw
  cases d with
  | nan => cases hlow
  | finite => rfl
  | infinite negative =>
      have hx := x.isLt
      have hy := y.isLt
      have hlow' : withSign s x ≤ withSign negative rankLimit := of_decide_eq_true hlow
      have hhigh' : withSign negative rankLimit ≤ withSign t y := of_decide_eq_true hhigh
      rcases withSign_eq_or s x with hs | hs <;> rcases withSign_eq_or t y with ht | ht <;>
        rcases withSign_eq_or negative rankLimit with hn | hn <;> omega

/-- The exact value of a number in units; zero for what is no finite number. -/
def exactUnits : Binary64 → ℤ
  | .finite negative rank => signedUnits negative rank
  | _ => 0

lemma le_iff_exactUnits {v w : Binary64} (hv : v.isFinite = true) (hw : w.isFinite = true) :
    v ≤ w ↔ exactUnits v ≤ exactUnits w := by
  obtain ⟨s, x, rfl⟩ := exists_of_isFinite hv
  obtain ⟨t, y, rfl⟩ := exists_of_isFinite hw
  exact finite_le_finite_iff

lemma le_refl_of_isFinite (hv : v.isFinite = true) : v ≤ v :=
  (le_iff_exactUnits hv hv).mpr le_rfl

/-- Magnitudes behind the same sign are as far apart as without it. -/
lemma natAbs_withSign_sub_mul_le {m n k distance : ℕ} (s : Bool)
    (h : IsNear (m * k) (n * k) distance) :
    (withSign s m - withSign s n).natAbs * k ≤ distance := by
  obtain ⟨hhigh, hlow⟩ := h
  have hdistance : (withSign s m - withSign s n).natAbs = m - n ∨
      (withSign s m - withSign s n).natAbs = n - m := by
    cases s <;> simp only [withSign, if_true, Bool.false_eq_true, if_false] <;> omega
  rcases hdistance with heq | heq <;> rw [heq, Nat.sub_mul] <;> omega

/-! ### Differences -/

/-- The magnitude of what lies between two numbers is not above both of theirs. -/
lemma natAbs_le_of_between {low high : ℕ} (hlow : signedUnits s low ≤ i)
    (hhigh : i ≤ signedUnits t high) : i.natAbs ≤ units (max low high) := by
  have hmax : units (max low high) = max (units low) (units high) :=
    units_strictMono.monotone.map_max
  rw [signedUnits_eq] at hlow hhigh
  rw [hmax]
  rcases withSign_eq_or s (units low) with hs | hs <;>
    rcases withSign_eq_or t (units high) with ht | ht <;> omega

section Difference

variable (hlow : signedUnits s' z ≤ signedUnits s x - signedUnits t y)
variable (hhigh : signedUnits s x - signedUnits t y ≤ signedUnits t' w)

include hlow hhigh

/-- A difference between two finite numbers is finite: it has the rank of the exact one. -/
lemma exists_sub_eq : ∃ u d, Binary64.finite s x - .finite t y = .finite u d ∧
    withSign u d = signedNearestRank (signedUnits s x - signedUnits t y) := by
  have hrank : nearestRank (signedUnits s x - signedUnits t y).natAbs 1 < rankLimit := by
    refine (nearestRank_le Nat.one_pos ?_).trans_lt (max_lt z.isLt w.isLt)
    rw [Nat.mul_one]
    exact natAbs_le_of_between hlow hhigh
  rw [sub_finite]
  split
  · next hzero =>
      refine ⟨_, _, ofRank_val (s && !t) ⟨0, by decide⟩, ?_⟩
      rw [hzero]
      cases s && !t <;> rfl
  · exact ⟨_, _, ofRank_val _ ⟨_, hrank⟩, rfl⟩

/-- **A rounded difference stays between the numbers that the exact one is between.** -/
theorem sub_between : .finite s' z ≤ Binary64.finite s x - .finite t y ∧
    Binary64.finite s x - .finite t y ≤ .finite t' w := by
  obtain ⟨u, d, hd, hrank⟩ := exists_sub_eq hlow hhigh
  rw [hd, finite_le_finite_iff_rank, finite_le_finite_iff_rank, hrank,
    ← signedNearestRank_signedUnits, ← signedNearestRank_signedUnits]
  exact ⟨signedNearestRank_mono hlow, signedNearestRank_mono hhigh⟩

/-- It is off by at most one part in `2 ^ 53`, or by half a unit. -/
lemma sub_near :
    (exactUnits (.finite s x - .finite t y) - (signedUnits s x - signedUnits t y)).natAbs *
        (2 * binadeSize) ≤ (signedUnits s x - signedUnits t y).natAbs + binadeSize := by
  obtain ⟨u, d, hd, hrank⟩ := exists_sub_eq hlow hhigh
  rw [hd, exactUnits, signedUnits_eq, ← mirror_withSign units_zero, hrank]
  obtain ⟨s, n, hn⟩ := exists_withSign (signedUnits s x - signedUnits t y)
  rw [hn, signedNearestRank_withSign, mirror_withSign units_zero, natAbs_withSign]
  exact natAbs_withSign_sub_mul_le s (isNear_nearestRank_one n)

end Difference

end DrillCycles.Binary64
