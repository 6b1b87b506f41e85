import DrillCycles.Binary64.Numeral
import DrillCycles.Proofs.Decimal.Shortest
import DrillCycles.Proofs.Word.Scanning

/-!
# Reading decimal text

A decimal fraction is written as digits, and a point with more digits if it has places.  `Spells` says
which digits these are, and `exists_spells` that every fraction has them.

What is read from the text, `leading?_signed`, is the fraction without the zeros at its end.  Taking
them away is the only thing that writing changes, and it does not change the value
(`isEqual_reduce`), so the text of a fraction is read as the number that the fraction is rounded to
(`leadingValue?_signed`).
-/

namespace DrillCycles

open Binary64 Numeral

variable {d e : Decimal} {whole fraction rest : Text} {negative : Bool}

namespace Decimal

/-! ### Zeros at the end -/

/-- Two ways to write one fraction. -/
def IsEqual (d e : Decimal) : Prop :=
  d.digits * powerOfTen e.places = e.digits * powerOfTen d.places

lemma IsEqual.nearestRank_eq (h : d.IsEqual e) : d.nearestRank = e.nearestRank := by
  refine nearestRank_congr (powerOfTen_pos _) (powerOfTen_pos _) ?_
  rw [Nat.mul_right_comm, h, Nat.mul_right_comm]

lemma IsEqual.digits_eq_zero_iff (h : d.IsEqual e) : d.digits = 0 ↔ e.digits = 0 := by
  have hd := (powerOfTen_pos d.places).ne'
  have he := (powerOfTen_pos e.places).ne'
  have hmul : d.digits * powerOfTen e.places = 0 ↔ e.digits * powerOfTen d.places = 0 := by rw [h]
  simpa [hd, he] using hmul

lemma isEqual_reduceFrom (digits places : ℕ) :
    (reduceFrom digits places).IsEqual ⟨digits, places⟩ := by
  induction places generalizing digits with
  | zero => rfl
  | succ n ih =>
      rw [reduceFrom]
      split
      · next hzero =>
          have hten : digits = digits / 10 * 10 := by omega
          calc (reduceFrom (digits / 10) n).digits * powerOfTen (n + 1)
              = (reduceFrom (digits / 10) n).digits * powerOfTen n * 10 := by
                rw [powerOfTen_succ, Nat.mul_assoc]
            _ = digits / 10 * powerOfTen (reduceFrom (digits / 10) n).places * 10 := by rw [ih]
            _ = digits / 10 * 10 * powerOfTen (reduceFrom (digits / 10) n).places :=
                Nat.mul_right_comm _ _ _
            _ = digits * powerOfTen (reduceFrom (digits / 10) n).places := by rw [← hten]
      · rfl

lemma isEqual_reduce (d : Decimal) : d.reduce.IsEqual d :=
  isEqual_reduceFrom d.digits d.places

/-! ### Spelling -/

/-- The digits before and behind the point that a fraction is written with. -/
structure Spells (d : Decimal) (whole fraction : Text) : Prop where
  whole_digits : ∀ c ∈ whole, c.isDigit = true
  fraction_digits : ∀ c ∈ fraction, c.isDigit = true
  whole_ne_nil : whole ≠ []
  value : Nat.ofDigitChars 10 (whole ++ fraction) 0 = d.digits
  places : fraction.length = d.places

/-- Digits with a point between them, if there is something behind it. -/
def positional (whole fraction : Text) : Text :=
  if fraction = [] then whole else whole ++ '.' :: fraction

lemma isDigit_of_mem_ofNat {n : ℕ} {c : Char} (h : c ∈ Text.ofNat n) : c.isDigit = true :=
  Nat.isDigit_of_mem_toDigits (by decide) (by decide) h

lemma isDigit_of_mem_fractionText {digits places : ℕ} {c : Char}
    (h : c ∈ fractionText digits places) : c.isDigit = true := by
  rcases List.mem_append.mp h with hzero | hdigit
  · rw [List.eq_of_mem_replicate hzero]
    rfl
  · exact isDigit_of_mem_ofNat hdigit

/-- Digits that fit into the places fill them exactly. -/
lemma length_fractionText {digits places : ℕ} (hpos : 0 < places)
    (hlt : digits < powerOfTen places) : (fractionText digits places).length = places := by
  have hle : (Text.ofNat digits).length ≤ places :=
    (Nat.length_toDigits_le_iff (by decide) hpos).mpr hlt
  rw [fractionText, List.length_append, List.length_replicate]
  omega

lemma ofDigitChars_ofNat (n : ℕ) : Nat.ofDigitChars 10 (Text.ofNat n) 0 = n :=
  Nat.ofDigitChars_ten_toDigits

lemma ofDigitChars_fractionText (digits places : ℕ) :
    Nat.ofDigitChars 10 (fractionText digits places) 0 = digits := by
  rw [fractionText, Nat.ofDigitChars_append, Nat.ofDigitChars_replicate_zero, Nat.mul_zero,
    ofDigitChars_ofNat]

/-- The text of a fraction: the digits in front of the point are those of its whole part. -/
lemma exists_fraction_spells (d : Decimal) : ∃ fraction,
    d.Spells (Text.ofNat (d.digits / powerOfTen d.places)) fraction ∧
    d.paddedText = positional (Text.ofNat (d.digits / powerOfTen d.places)) fraction := by
  rw [paddedText]
  split
  · next hzero =>
      rw [hzero, powerOfTen_zero, Nat.div_one]
      refine ⟨[], ⟨fun c hc => isDigit_of_mem_ofNat hc, by simp, Nat.toDigits_ne_nil, ?_, hzero.symm⟩,
        rfl⟩
      rw [List.append_nil, ofDigitChars_ofNat]
  · next hplaces =>
      set whole := Text.ofNat (d.digits / powerOfTen d.places) with hwhole
      set fraction := fractionText (d.digits % powerOfTen d.places) d.places with hfraction
      have hlength : fraction.length = d.places :=
        length_fractionText (Nat.pos_of_ne_zero hplaces) (Nat.mod_lt _ (powerOfTen_pos _))
      have hne : fraction ≠ [] := by
        rintro hnil
        rw [hnil] at hlength
        exact hplaces hlength.symm
      refine ⟨fraction, ⟨fun c hc => isDigit_of_mem_ofNat hc,
        fun c hc => isDigit_of_mem_fractionText hc, Nat.toDigits_ne_nil, ?_, hlength⟩, ?_⟩
      · rw [Nat.ofDigitChars_append, hwhole, ofDigitChars_ofNat,
          Nat.ofDigitChars_eq_ofDigitChars_zero, hlength, hfraction, ofDigitChars_fractionText]
        exact Nat.div_add_mod d.digits (powerOfTen d.places)
      · rw [positional, if_neg hne]

lemma exists_spells (d : Decimal) :
    ∃ whole fraction, d.Spells whole fraction ∧ d.paddedText = positional whole fraction :=
  ⟨_, exists_fraction_spells d⟩

/-! ### Reading -/

lemma Spells.leadingUnsigned?_positional (h : d.Spells whole fraction) (hrest : NoFraction rest) :
    leadingUnsigned? negative (positional whole fraction ++ rest) =
      some ⟨negative, whole, fraction⟩ := by
  rw [positional]
  split
  · next hnil => rw [leadingUnsigned?_digits h.whole_digits hrest, if_neg h.whole_ne_nil, hnil]
  · rw [List.append_assoc, List.cons_append,
      leadingUnsigned?_point h.whole_digits h.fraction_digits hrest.1,
      if_neg fun hboth => h.whole_ne_nil hboth.1]

lemma Spells.isDigit_of_head? (h : d.Spells whole fraction) {c : Char}
    (hc : (positional whole fraction ++ rest).head? = some c) : c.isDigit = true := by
  obtain ⟨first, tail, rfl⟩ := List.exists_cons_of_ne_nil h.whole_ne_nil
  have hfirst : first = c := by
    rw [positional] at hc
    split at hc <;> exact Option.some.inj hc
  rw [← hfirst]
  exact h.whole_digits first List.mem_cons_self

lemma Spells.leading?_signed (h : d.Spells whole fraction) (hrest : NoFraction rest) :
    leading? (signed negative (positional whole fraction) ++ rest) =
      some ⟨negative, whole, fraction⟩ := by
  rw [signed]
  split
  · next hnegative =>
      rw [hnegative]
      exact h.leadingUnsigned?_positional hrest
  · next hnegative =>
      rw [leading?_of_not_sign (fun hc => absurd (h.isDigit_of_head? hc) (by decide))
        (fun hc => absurd (h.isDigit_of_head? hc) (by decide)), h.leadingUnsigned?_positional hrest,
        Bool.eq_false_iff.mpr hnegative]

lemma Spells.value_eq (h : d.Spells whole fraction) (negative : Bool) :
    Numeral.value ⟨negative, whole, fraction⟩ = .ofRank negative d.nearestRank := by
  rw [Numeral.value, h.value, h.places]
  rfl

/-- **Written fractions read back** as the number nearest to them. -/
theorem leadingValue?_signed (d : Decimal) (negative : Bool) (hrest : NoFraction rest) :
    leadingValue? (signed negative d.text ++ rest) =
      (some (Binary64.ofRank negative d.nearestRank)).filter isFinite := by
  obtain ⟨whole, fraction, hspells, htext⟩ := exists_spells d.reduce
  rw [leadingValue?, text, htext, hspells.leading?_signed hrest, Option.map_some, hspells.value_eq,
    (isEqual_reduce d).nearestRank_eq]

end Decimal

end DrillCycles
