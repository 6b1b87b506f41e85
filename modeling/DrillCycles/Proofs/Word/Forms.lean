import DrillCycles.Proofs.Word.Scanning

/-!
# Forms of numerals

What a numeral is, said without a scanner.

* **`Numeral.IsForm`** is the grammar: a sign or none, then digits with or without a point and more
  digits behind them, or a point and digits.
* **`Numeral.IsLongest`** is the longest form at the start of a text; there is one at most
  (`IsLongest.unique`).

A form without a sign has one digit at least and one point at most.  From there follows how far it can go
(`IsUnsignedForm.prefix_digits`, `IsUnsignedForm.prefix_point`).  A form with a sign has the sign that the
text starts with (`IsForm.of_sign`).
-/

namespace DrillCycles.Numeral

variable {t w rest sign number whole fraction : Text} {c : Char} {n m : Numeral} {negative : Bool}

/-- Digits with or without a point and more digits behind them, or a point and digits.  The first two
texts are the digits in front of the point and those behind it. -/
inductive IsUnsignedForm : Text → Text → Text → Prop
  | digits {whole : Text} (hne : whole ≠ []) (hwhole : ∀ c ∈ whole, c.isDigit = true) :
      IsUnsignedForm whole [] whole
  | point {whole fraction : Text} (hne : whole ≠ []) (hwhole : ∀ c ∈ whole, c.isDigit = true)
      (hfraction : ∀ c ∈ fraction, c.isDigit = true) :
      IsUnsignedForm whole fraction (whole ++ '.' :: fraction)
  | leadingPoint {fraction : Text} (hne : fraction ≠ [])
      (hfraction : ∀ c ∈ fraction, c.isDigit = true) : IsUnsignedForm [] fraction ('.' :: fraction)

/-- The signs that may stand in front of a numeral; without one it is not negative. -/
def signs (negative : Bool) : List Text :=
  if negative then [['-']] else [[], ['+']]

/-- **The grammar of numerals.** -/
def IsForm (n : Numeral) (w : Text) : Prop :=
  ∃ sign ∈ signs n.negative, ∃ number, w = sign ++ number ∧ IsUnsignedForm n.whole n.fraction number

/-- **The longest form of a numeral** at the start of a text. -/
structure IsLongest (n : Numeral) (w t : Text) : Prop where
  form : n.IsForm w
  starts : w <+: t
  longest : ∀ (m : Numeral) (other : Text), m.IsForm other → other <+: t → other.length ≤ w.length

/-- No form of a numeral stands at the start of the text. -/
def NoForm (t : Text) : Prop :=
  ∀ (m : Numeral) (other : Text), m.IsForm other → ¬ other <+: t

lemma IsUnsignedForm.exists_isDigit (h : IsUnsignedForm whole fraction number) :
    ∃ c ∈ number, c.isDigit = true := by
  cases h with
  | digits hne hwhole =>
      obtain ⟨c, tail, rfl⟩ := List.exists_cons_of_ne_nil hne
      exact ⟨c, by simp, hwhole c (by simp)⟩
  | point hne hwhole _ =>
      obtain ⟨c, tail, rfl⟩ := List.exists_cons_of_ne_nil hne
      exact ⟨c, by simp, hwhole c (by simp)⟩
  | leadingPoint hne hfraction =>
      obtain ⟨c, tail, rfl⟩ := List.exists_cons_of_ne_nil hne
      exact ⟨c, by simp, hfraction c (by simp)⟩

lemma IsUnsignedForm.isDigit_or_point (h : IsUnsignedForm whole fraction number) (hc : c ∈ number) :
    c.isDigit = true ∨ c = '.' := by
  cases h with
  | digits _ hwhole => exact Or.inl (hwhole c hc)
  | point _ hwhole hfraction =>
      rcases List.mem_append.mp hc with hc | hc
      · exact Or.inl (hwhole c hc)
      · exact (List.mem_cons.mp hc).symm.imp_left (hfraction c)
  | leadingPoint _ hfraction => exact (List.mem_cons.mp hc).symm.imp_left (hfraction c)

lemma count_point_of_digits (h : ∀ c ∈ t, c.isDigit = true) : t.count '.' = 0 := by
  refine List.count_eq_zero.mpr fun hmem => ?_
  exact absurd (h _ hmem) (by decide)

lemma IsUnsignedForm.count_point_le (h : IsUnsignedForm whole fraction number) :
    number.count '.' ≤ 1 := by
  cases h with
  | digits _ hwhole => simp [count_point_of_digits hwhole]
  | point _ hwhole hfraction =>
      simp [count_point_of_digits hwhole, count_point_of_digits hfraction]
  | leadingPoint _ hfraction => simp [count_point_of_digits hfraction]

lemma mem_signs_true : sign ∈ signs true ↔ sign = ['-'] := by simp [signs]

lemma mem_signs_false : sign ∈ signs false ↔ sign = [] ∨ sign = ['+'] := by simp [signs]

lemma mem_of_mem_signs (h : sign ∈ signs negative) (hc : c ∈ sign) : c ∈ ['+', '-'] := by
  cases negative with
  | true =>
      rw [mem_signs_true.mp h] at hc
      simp_all
  | false => rcases mem_signs_false.mp h with rfl | rfl <;> simp_all

/-- A form consists of digits, one point at most, and signs: no exponent and no other script's
digits. -/
lemma IsForm.isNumeric (h : n.IsForm w) (hc : c ∈ w) : IsNumeric c := by
  obtain ⟨sign, hsign, number, rfl, hnumber⟩ := h
  rcases List.mem_append.mp hc with hc | hc
  · exact Or.inr (List.mem_append_left ['.'] (mem_of_mem_signs hsign hc))
  · exact (hnumber.isDigit_or_point hc).imp_right (by rintro rfl; simp)

lemma IsForm.count_point_le (h : n.IsForm w) : w.count '.' ≤ 1 := by
  obtain ⟨sign, hsign, number, rfl, hnumber⟩ := h
  have hnone : sign.count '.' = 0 := by
    refine List.count_eq_zero.mpr fun hmem => ?_
    exact absurd (mem_of_mem_signs hsign hmem) (by decide)
  rw [List.count_append, hnone, Nat.zero_add]
  exact hnumber.count_point_le

/-! ### How far a form goes -/

/-- What starts a text and does not go on behind a part of it starts that part. -/
lemma prefix_of_stop (h : w <+: t ++ rest)
    (hstop : ∀ c tail, rest.head? = some c → w ≠ t ++ c :: tail) : w <+: t := by
  rcases List.prefix_or_prefix_of_prefix h (List.prefix_append t rest) with hle | ⟨behind, rfl⟩
  · exact hle
  · rw [List.prefix_append_right_inj] at h
    cases behind with
    | nil => simp
    | cons c tail =>
        obtain ⟨others, rfl⟩ := h
        exact absurd rfl (hstop c tail rfl)

lemma IsUnsignedForm.prefix_digits (h : IsUnsignedForm whole fraction w) (hrest : NoFraction rest)
    (hw : w <+: t ++ rest) : w <+: t := by
  refine prefix_of_stop hw ?_
  rintro c tail hc rfl
  rcases h.isDigit_or_point (c := c) (by simp) with hdigit | rfl
  · exact absurd hdigit (by simp [hrest.1 c hc])
  · exact hrest.2 hc

/-- A second point is no part of a form. -/
lemma IsUnsignedForm.prefix_point (h : IsUnsignedForm whole fraction w) (hpoint : '.' ∈ t)
    (hrest : NoDigit rest) (hw : w <+: t ++ rest) : w <+: t := by
  refine prefix_of_stop hw ?_
  rintro c tail hc rfl
  rcases h.isDigit_or_point (c := c) (by simp) with hdigit | rfl
  · exact absurd hdigit (by simp [hrest c hc])
  · have htwo := h.count_point_le
    rw [List.count_append, List.count_cons_self] at htwo
    have hone := List.count_pos_iff.mpr hpoint
    omega

lemma IsUnsignedForm.not_prefix_point (h : IsUnsignedForm whole fraction w) : ¬ w <+: ['.'] := by
  intro hw
  obtain ⟨c, hc, hdigit⟩ := h.exists_isDigit
  rw [List.mem_singleton.mp (hw.mem hc)] at hdigit
  exact absurd hdigit (by decide)

lemma IsUnsignedForm.ne_nil (h : IsUnsignedForm whole fraction w) : w ≠ [] := by
  obtain ⟨c, hc, -⟩ := h.exists_isDigit
  exact List.ne_nil_of_mem hc

/-! ### Reading a form -/

lemma IsUnsignedForm.leadingUnsigned? (h : IsUnsignedForm whole fraction number) (negative : Bool) :
    leadingUnsigned? negative number = some ⟨negative, whole, fraction⟩ := by
  cases h with
  | digits hne hwhole =>
      have hread : Numeral.leadingUnsigned? negative (number ++ []) = _ :=
        leadingUnsigned?_digits hwhole noFraction_nil
      rwa [List.append_nil, if_neg hne] at hread
  | point hne hwhole hfraction =>
      have hread : Numeral.leadingUnsigned? negative (whole ++ '.' :: (fraction ++ [])) = _ :=
        leadingUnsigned?_point hwhole hfraction noDigit_nil
      rwa [List.append_nil, if_neg fun hboth => hne hboth.1] at hread
  | leadingPoint hne hfraction =>
      have hnone : ∀ c ∈ ([] : Text), c.isDigit = true := by simp
      have hread : Numeral.leadingUnsigned? negative ([] ++ '.' :: (fraction ++ [])) = _ :=
        leadingUnsigned?_point hnone hfraction noDigit_nil
      rwa [List.append_nil, if_neg fun hboth => hne hboth.2] at hread

/-- The sign at the start of a text, with what it says: a text without a sign starts with none. -/
lemma exists_signs (t : Text) : ∃ negative, ∃ sign ∈ signs negative, ∃ number, t = sign ++ number ∧
    (sign = [] → number.head? ≠ some '+' ∧ number.head? ≠ some '-') := by
  by_cases hplus : t.head? = some '+'
  · obtain ⟨number, rfl⟩ := List.head?_eq_some_iff.mp hplus
    exact ⟨false, ['+'], by simp [signs], number, rfl, by simp⟩
  by_cases hminus : t.head? = some '-'
  · obtain ⟨number, rfl⟩ := List.head?_eq_some_iff.mp hminus
    exact ⟨true, ['-'], by simp [signs], number, rfl, by simp⟩
  · exact ⟨false, [], by simp [signs], t, rfl, fun _ => ⟨hplus, hminus⟩⟩

section Signed

variable (hsign : sign ∈ signs negative)
variable (hfirst : sign = [] → number.head? ≠ some '+' ∧ number.head? ≠ some '-')

include hsign hfirst

lemma leading?_of_sign : leading? (sign ++ number) = leadingUnsigned? negative number := by
  cases negative with
  | true =>
      rw [mem_signs_true.mp hsign]
      rfl
  | false =>
      rcases mem_signs_false.mp hsign with rfl | rfl
      · exact leading?_of_not_sign (hfirst rfl).2 (hfirst rfl).1
      · rfl

/-- The sign and what it says can be seen from the first character. -/
lemma head?_sign : ((sign ++ number).head? = some '-' ↔ negative = true) ∧
    ((sign ++ number).head? = some '+' ↔ sign = ['+']) := by
  cases negative with
  | true =>
      rw [mem_signs_true.mp hsign]
      simp
  | false =>
      rcases mem_signs_false.mp hsign with rfl | rfl
      · simpa using (hfirst rfl).symm
      · simp

/-- Texts that start with the same character start with the same sign. -/
lemma sign_unique {sign' number' : Text} {negative' : Bool} (hsign' : sign' ∈ signs negative')
    (hfirst' : sign' = [] → number'.head? ≠ some '+' ∧ number'.head? ≠ some '-')
    (hhead : (sign' ++ number').head? = (sign ++ number).head?) :
    negative' = negative ∧ sign' = sign := by
  obtain ⟨hminus, hplus⟩ := head?_sign hsign hfirst
  obtain ⟨hminus', hplus'⟩ := head?_sign hsign' hfirst'
  rw [hhead] at hminus' hplus'
  obtain rfl : negative' = negative := Bool.eq_iff_iff.mpr (hminus'.symm.trans hminus)
  refine ⟨rfl, ?_⟩
  cases negative' with
  | true => rw [mem_signs_true.mp hsign, mem_signs_true.mp hsign']
  | false =>
      rcases mem_signs_false.mp hsign with rfl | rfl <;>
        rcases mem_signs_false.mp hsign' with rfl | rfl
      · rfl
      · exact (hplus.mp (hplus'.mpr rfl)).symm
      · exact hplus'.mp (hplus.mpr rfl)
      · rfl

end Signed

lemma IsUnsignedForm.not_sign (h : IsUnsignedForm whole fraction w) :
    w.head? ≠ some '+' ∧ w.head? ≠ some '-' := by
  obtain ⟨c, tail, rfl⟩ := List.exists_cons_of_ne_nil h.ne_nil
  rcases h.isDigit_or_point (c := c) (by simp) with hdigit | rfl
  · constructor <;> (rintro ⟨⟩; exact absurd hdigit (by decide))
  · simp

lemma IsForm.leading? (h : n.IsForm w) : leading? w = some n := by
  obtain ⟨sign, hsign, number, rfl, hnumber⟩ := h
  rw [leading?_of_sign hsign fun _ => hnumber.not_sign]
  exact hnumber.leadingUnsigned? n.negative

/-- A form at the start of a text has the sign of the text. -/
lemma IsForm.of_sign (h : n.IsForm w) (hsign : sign ∈ signs negative)
    (hfirst : sign = [] → number.head? ≠ some '+' ∧ number.head? ≠ some '-')
    (hw : w <+: sign ++ number) :
    ∃ w', w = sign ++ w' ∧ IsUnsignedForm n.whole n.fraction w' ∧ w' <+: number := by
  obtain ⟨sign', hsign', number', rfl, hnumber⟩ := h
  have hhead : (sign' ++ number').head? = (sign ++ number).head? := by
    obtain ⟨rest, hrest⟩ := hw
    obtain ⟨c, tail, hcons⟩ :=
      List.exists_cons_of_ne_nil (List.append_ne_nil_of_right_ne_nil sign' hnumber.ne_nil)
    rw [← hrest, hcons]
    rfl
  obtain ⟨-, rfl⟩ := sign_unique hsign hfirst hsign' (fun _ => hnumber.not_sign) hhead
  exact ⟨number', rfl, hnumber, (List.prefix_append_right_inj sign').mp hw⟩

lemma IsLongest.unique (h : n.IsLongest w t) {other : Text} (h' : m.IsLongest other t) :
    n = m ∧ w = other := by
  have hlength := (h'.longest n w h.form h.starts).antisymm (h.longest m other h'.form h'.starts)
  obtain rfl : w = other :=
    (List.prefix_of_prefix_length_le h.starts h'.starts hlength.le).eq_of_length hlength
  exact ⟨Option.some.inj (h.form.leading?.symm.trans h'.form.leading?), rfl⟩

end DrillCycles.Numeral
