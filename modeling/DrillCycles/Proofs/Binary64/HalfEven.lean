import DrillCycles.Rounding
import Mathlib.Tactic.Ring

/-!
# Laws of rounding to the nearest natural number

`divHalfEven` gives the natural number nearest to a quotient.  It is characterised by the distance: at
most one half, and less than one half for an odd number (`divHalfEven_eq`).  It is monotone in the
numerator, does not change when both parts are multiplied by the same number, and leaves whole
quotients as they are.
-/

namespace DrillCycles

variable {num num' den c n : ℕ}

/-- The number at a distance of at most one half, the even one of two, is the rounding. -/
lemma divHalfEven_eq (pos : 0 < den) (low : 2 * (n * den) ≤ 2 * num + den)
    (high : 2 * num ≤ 2 * (n * den) + den)
    (odd : n % 2 = 1 → 2 * (n * den) < 2 * num + den ∧ 2 * num < 2 * (n * den) + den) :
    divHalfEven num den = n := by
  have hdiv : den * (num / den) + num % den = num := Nat.div_add_mod num den
  have hmod : num % den < den := Nat.mod_lt num pos
  have hle : num / den ≤ n := by
    by_contra hlt
    have hmul : den * (n + 1) ≤ den * (num / den) := Nat.mul_le_mul_left den (by omega)
    rw [Nat.mul_add, Nat.mul_comm den n] at hmul
    omega
  have hge : n ≤ num / den + 1 := by
    by_contra hlt
    have hmul : den * (num / den + 2) ≤ den * n := Nat.mul_le_mul_left den (by omega)
    rw [Nat.mul_add, Nat.mul_comm den n] at hmul
    omega
  rw [divHalfEven]
  rcases Nat.lt_or_eq_of_le hle with hbelow | hequal
  · -- The number is the upper neighbour of the quotient.
    obtain rfl : n = num / den + 1 := by omega
    have hmul : (num / den + 1) * den = den * (num / den) + den := by ring
    rw [hmul] at low odd
    split_ifs with h₁ h₂
    · omega
    · rfl
    · have heven : num / den % 2 = 1 := by
        by_contra heven
        have := odd (by omega)
        omega
      omega
  · subst hequal
    rw [Nat.mul_comm (num / den) den] at low high odd
    split_ifs with h₁ h₂
    · rfl
    · omega
    · have heven : num / den % 2 = 0 := by
        by_contra heven
        have := odd (by omega)
        omega
      omega

lemma divHalfEven_mul_left (hc : 0 < c) (num den : ℕ) :
    divHalfEven (c * num) (c * den) = divHalfEven num den := by
  have hlt : ∀ x y : ℕ, 2 * (c * x) < c * y ↔ 2 * x < y := fun x y => by
    rw [Nat.mul_left_comm]
    exact Nat.mul_lt_mul_left hc
  have hlt' : ∀ x y : ℕ, c * y < 2 * (c * x) ↔ y < 2 * x := fun x y => by
    rw [Nat.mul_left_comm]
    exact Nat.mul_lt_mul_left hc
  simp only [divHalfEven, Nat.mul_div_mul_left num den hc, Nat.mul_mod_mul_left, hlt, hlt']

lemma divHalfEven_mul_self (pos : 0 < den) (n : ℕ) : divHalfEven (n * den) den = n := by
  rw [divHalfEven_of_dvd pos (Nat.dvd_mul_left den n), Nat.mul_div_cancel n pos]

@[simp] lemma divHalfEven_one (num : ℕ) : divHalfEven num 1 = num := by
  simpa using divHalfEven_mul_self Nat.one_pos num

lemma divHalfEven_mono (den : ℕ) (h : num ≤ num') : divHalfEven num den ≤ divHalfEven num' den := by
  rcases Nat.lt_or_eq_of_le (Nat.div_le_div_right (c := den) h) with hlt | heq
  · exact (divHalfEven_le num den).trans (hlt.trans_le (le_divHalfEven num' den))
  · have hmod : num % den ≤ num' % den := by
      have h₁ := Nat.div_add_mod num den
      have h₂ := Nat.div_add_mod num' den
      rw [heq] at h₁
      omega
    simp only [divHalfEven, heq]
    split_ifs <;> omega

lemma divHalfEven_le_of_le (pos : 0 < den) (h : num ≤ n * den) : divHalfEven num den ≤ n :=
  (divHalfEven_mono den h).trans_eq (divHalfEven_mul_self pos n)

lemma le_divHalfEven_of_le (pos : 0 < den) (h : n * den ≤ num) : n ≤ divHalfEven num den :=
  (divHalfEven_mul_self pos n).symm.trans_le (divHalfEven_mono den h)

/-- The rounding is at most one half above the quotient. -/
lemma two_mul_divHalfEven_le (num den : ℕ) :
    2 * (divHalfEven num den * den) ≤ 2 * num + den := by
  have hdiv : den * (num / den) + num % den = num := Nat.div_add_mod num den
  have hmul : (num / den + 1) * den = den * (num / den) + den := by ring
  have hcomm : num / den * den = den * (num / den) := Nat.mul_comm _ _
  simp only [divHalfEven]
  split_ifs with h₁ h₂
  · omega
  · omega
  · rcases Nat.mod_two_eq_zero_or_one (num / den) with heven | heven <;> rw [heven]
    · rw [Nat.add_zero]
      omega
    · omega

/-- The rounding is at most one half below the quotient. -/
lemma two_mul_le_divHalfEven (pos : 0 < den) (num : ℕ) :
    2 * num ≤ 2 * (divHalfEven num den * den) + den := by
  have hdiv : den * (num / den) + num % den = num := Nat.div_add_mod num den
  have hmod : num % den < den := Nat.mod_lt num pos
  have hmul : (num / den + 1) * den = den * (num / den) + den := by ring
  have hcomm : num / den * den = den * (num / den) := Nat.mul_comm _ _
  simp only [divHalfEven]
  split_ifs with h₁ h₂
  · omega
  · omega
  · rcases Nat.mod_two_eq_zero_or_one (num / den) with heven | heven <;> rw [heven]
    · rw [Nat.add_zero]
      omega
    · omega

/-- Half-way between two neighbours the even one is taken. -/
lemma even_divHalfEven (h : 2 * num = 2 * (divHalfEven num den * den) + den ∨
    2 * (divHalfEven num den * den) = 2 * num + den) (pos : 0 < den) :
    Even (divHalfEven num den) := by
  have hdiv : den * (num / den) + num % den = num := Nat.div_add_mod num den
  have hmod : num % den < den := Nat.mod_lt num pos
  have hmul : (num / den + 1) * den = den * (num / den) + den := by ring
  have hcomm : num / den * den = den * (num / den) := Nat.mul_comm _ _
  rw [Nat.even_iff]
  simp only [divHalfEven] at h ⊢
  split_ifs at h ⊢ with h₁ h₂
  · omega
  · omega
  · omega

/-- No natural number is nearer to the quotient. -/
theorem divHalfEven_nearest (pos : 0 < den) (num n : ℕ) :
    ((divHalfEven num den * den : ℕ) - num : ℤ).natAbs ≤ ((n * den : ℕ) - num : ℤ).natAbs := by
  have hlow := two_mul_le_divHalfEven pos num
  have hhigh := two_mul_divHalfEven_le num den
  generalize divHalfEven num den = d at hlow hhigh ⊢
  have happart : ∀ i j : ℕ, i < j → i * den + den ≤ j * den := fun i j hlt => by
    rw [← Nat.succ_mul]
    exact Nat.mul_le_mul_right den hlt
  rcases Nat.lt_trichotomy n d with hlt | rfl | hgt
  · have := happart n d hlt
    omega
  · exact le_rfl
  · have := happart d n hgt
    omega

end DrillCycles
