import DrillCycles.Proofs.Binary64.Order
import DrillCycles.Proofs.Decimal.Rounded
import Mathlib.Algebra.Field.Rat
import Mathlib.Data.List.DropRight

/-!
# Canonical numerals

A decimal fraction has many numerals: zeros may stand in front of it and behind it.  A numeral without
them is canonical.

**There is one canonical numeral for a number**, if zero has no sign (`IsCanonical.eq_of_toRat_eq`).  The
argument goes through the fractions: one without a zero at its end is determined by its value
(`Decimal.IsReduced.eq_of_isEqual`), and the digits of a canonical numeral are determined by its fraction
(`IsCanonical.eq_of_isEqual`).  What is written for a fraction with a sign is this numeral
(`exists_signedDecimal_eq`).

**Trimming.**  `Text.tidy` makes a canonical numeral of a text without reading it: it takes away the zeros
at the end of a text with a point, then the point if it is left at the end, and at last the sign of a
zero.  `IsPlain.tidy_spelling` says that this is `Numeral.tidy`, which does not change the number
(`toRat_tidy`).
-/

namespace DrillCycles

open Binary64

variable {t whole fraction : Text} {c : Char}

/-! ### Digits and their values -/

lemma exists_digitChar (h : c.isDigit = true) : ∃ d < 10, c = Nat.digitChar d := by
  obtain ⟨hlow, hhigh⟩ := Char.isDigit_iff_toNat.mp h
  have hlow' : 48 ≤ c.toNat := hlow
  have hhigh' : c.toNat ≤ 57 := hhigh
  refine ⟨c.toNat - 48, by omega, Char.toNat_inj.mp ?_⟩
  rw [Nat.toNat_digitChar_of_lt_ten (by omega)]
  omega

lemma ofDigitChars_concat {d : ℕ} (hd : d < 10) (t : Text) :
    Nat.ofDigitChars 10 (t ++ [Nat.digitChar d]) 0 = 10 * Nat.ofDigitChars 10 t 0 + d := by
  rw [Nat.ofDigitChars_append, Nat.ofDigitChars_cons_digitChar_of_lt_ten hd, Nat.ofDigitChars_nil]

lemma ofDigitChars_lt (h : ∀ c ∈ t, c.isDigit = true) :
    Nat.ofDigitChars 10 t 0 < powerOfTen t.length := by
  induction t using List.reverseRecOn with
  | nil => exact Nat.one_pos
  | append_singleton t c ih =>
      obtain ⟨ht, hc⟩ := List.forall_mem_append.mp h
      obtain ⟨d, hd, rfl⟩ := exists_digitChar (hc c (List.mem_singleton_self c))
      have := ih ht
      rw [ofDigitChars_concat hd, List.length_append, List.length_singleton, powerOfTen_succ]
      omega

/-- Digits of one length are determined by their value. -/
lemma eq_of_ofDigitChars_eq {t' : Text} (h : ∀ c ∈ t, c.isDigit = true)
    (h' : ∀ c ∈ t', c.isDigit = true) (hlength : t.length = t'.length)
    (hvalue : Nat.ofDigitChars 10 t 0 = Nat.ofDigitChars 10 t' 0) : t = t' := by
  induction t using List.reverseRecOn generalizing t' with
  | nil => exact (List.length_eq_zero_iff.mp hlength.symm).symm
  | append_singleton t c ih =>
      obtain ⟨front, c', rfl⟩ : ∃ front c', t' = front ++ [c'] := by
        rw [List.length_append, List.length_singleton] at hlength
        exact ⟨_, _, (List.dropLast_append_getLast (by rintro rfl; simp at hlength)).symm⟩
      obtain ⟨ht, hc⟩ := List.forall_mem_append.mp h
      obtain ⟨hfront, hc'⟩ := List.forall_mem_append.mp h'
      obtain ⟨d, hd, rfl⟩ := exists_digitChar (hc c (List.mem_singleton_self c))
      obtain ⟨d', hd', rfl⟩ := exists_digitChar (hc' c' (List.mem_singleton_self c'))
      rw [ofDigitChars_concat hd, ofDigitChars_concat hd'] at hvalue
      obtain rfl : d = d' := by omega
      rw [ih ht hfront (by simpa using hlength) (by omega)]

/-! ### Parts of a numeral -/

namespace Numeral

/-- Digits as they may stand in front of a point: zero, or digits that do not start with a zero. -/
structure IsWhole (whole : Text) : Prop where
  isDigit : ∀ c ∈ whole, c.isDigit = true
  leading : whole = ['0'] ∨ ∃ c rest, whole = c :: rest ∧ c ≠ '0'

/-- Digits as they may stand behind a point, if there is one: they do not end with a zero. -/
structure IsTrimmed (fraction : Text) : Prop where
  isDigit : ∀ c ∈ fraction, c.isDigit = true
  last : ∀ c, fraction.getLast? = some c → c ≠ '0'

lemma IsWhole.ne_nil (h : IsWhole whole) : whole ≠ [] := by
  rcases h.leading with rfl | ⟨c, rest, rfl, -⟩ <;> exact List.cons_ne_nil _ _

/-- **Digits without a zero in front are those of their value.** -/
lemma IsWhole.ofNat_eq (h : IsWhole whole) : Text.ofNat (Nat.ofDigitChars 10 whole 0) = whole := by
  induction whole using List.reverseRecOn with
  | nil => exact absurd rfl h.ne_nil
  | append_singleton front c ih =>
      obtain ⟨hfront, hc⟩ := List.forall_mem_append.mp h.isDigit
      obtain ⟨d, hd, rfl⟩ := exists_digitChar (hc c (List.mem_singleton_self c))
      rw [ofDigitChars_concat hd]
      cases front with
      | nil =>
          rw [Nat.ofDigitChars_nil, Nat.mul_zero, Nat.zero_add]
          exact Nat.toDigits_of_lt_base hd
      | cons first rest =>
          -- In front of another digit stands no zero.
          have hfirst : first ≠ '0' := by
            rcases h.leading with hzero | ⟨c, rest', hcons, hne⟩
            · simp at hzero
            · rw [List.cons_append, List.cons.injEq] at hcons
              rwa [hcons.1]
          have hrest := ih ⟨hfront, Or.inr ⟨first, rest, rfl, hfirst⟩⟩
          have hpos : 0 < Nat.ofDigitChars 10 (first :: rest) 0 := by
            refine Nat.pos_of_ne_zero fun hzero => hfirst ?_
            rw [hzero, Text.ofNat, Nat.toDigits_zero, List.cons.injEq] at hrest
            exact hrest.1.symm
          rw [Text.ofNat, ← Nat.toDigits_append_toDigits (by decide) hpos hd,
            Nat.toDigits_of_lt_base hd]
          exact congrArg (· ++ _) hrest

lemma isWhole_ofNat (n : ℕ) : IsWhole (Text.ofNat n) := by
  refine ⟨fun c hc => Decimal.isDigit_of_mem_ofNat hc, ?_⟩
  induction n using Nat.strong_induction_on with
  | _ n ih =>
      rcases Nat.lt_or_ge n 10 with hlt | hge
      · rw [Text.ofNat, Nat.toDigits_of_lt_base hlt]
        by_cases hzero : n = 0
        · subst hzero
          exact Or.inl rfl
        · exact Or.inr ⟨_, _, rfl, fun h => hzero (Nat.digitChar_eq_zero.mp h)⟩
      · rw [Text.ofNat, Nat.toDigits_of_base_le (by decide) hge]
        rcases ih (n / 10) (by omega) with hzero | ⟨c, rest, hcons, hc⟩
        · have hvalue := Decimal.ofDigitChars_ofNat (n / 10)
          rw [hzero] at hvalue
          have : n / 10 = 0 := hvalue.symm
          omega
        · rw [Text.ofNat] at hcons
          rw [hcons]
          exact Or.inr ⟨c, _, List.cons_append, hc⟩

/-! ### Canonical numerals -/

/-- The text of a numeral: its sign, and its digits with a point between them if any stand behind it. -/
def spelling (n : Numeral) : Text :=
  signed n.negative (Decimal.positional n.whole n.fraction)

/-- The decimal fraction that a numeral stands for, without its sign. -/
def magnitude (n : Numeral) : Decimal :=
  ⟨Nat.ofDigitChars 10 (n.whole ++ n.fraction) 0, n.fraction.length⟩

/-- **A canonical numeral** has no superfluous zeros in front and none behind the point. -/
structure IsCanonical (n : Numeral) : Prop where
  whole : IsWhole n.whole
  fraction : IsTrimmed n.fraction

end Numeral

namespace Decimal

variable {d e : Decimal}

/-- A fraction with the fewest places. -/
def IsReduced (d : Decimal) : Prop :=
  d.places = 0 ∨ d.digits % 10 ≠ 0

lemma isReduced_reduceFrom (digits places : ℕ) : (reduceFrom digits places).IsReduced := by
  induction places generalizing digits with
  | zero => exact Or.inl rfl
  | succ places ih =>
      rw [reduceFrom]
      split
      · exact ih _
      · next hlast => exact Or.inr hlast

lemma places_reduceFrom_le (digits places : ℕ) : (reduceFrom digits places).places ≤ places := by
  induction places generalizing digits with
  | zero => exact le_rfl
  | succ places ih =>
      rw [reduceFrom]
      split
      · exact (ih _).trans (Nat.le_succ places)
      · exact le_rfl

lemma isReduced_reduce (d : Decimal) : d.reduce.IsReduced :=
  isReduced_reduceFrom d.digits d.places

lemma IsEqual.symm (h : d.IsEqual e) : e.IsEqual d :=
  Eq.symm h

/-- With more places the same value ends with a zero. -/
lemma IsReduced.places_le (h : e.IsReduced) (heq : d.IsEqual e) : e.places ≤ d.places := by
  by_contra hlt
  obtain ⟨more, hmore⟩ := Nat.exists_eq_add_of_lt (Nat.lt_of_not_le hlt)
  have hdigits : e.digits = d.digits * powerOfTen more * 10 := by
    refine Nat.eq_of_mul_eq_mul_right (powerOfTen_pos d.places) ?_
    calc e.digits * powerOfTen d.places = d.digits * powerOfTen e.places := heq.symm
      _ = d.digits * (powerOfTen d.places * powerOfTen more * 10) := by
          rw [hmore, powerOfTen_succ, powerOfTen_add]
      _ = d.digits * powerOfTen more * 10 * powerOfTen d.places := by ring
  rcases h with hzero | hlast
  · omega
  · rw [hdigits, Nat.mul_mod_left] at hlast
    exact hlast rfl

/-- **A fraction has one form with the fewest places.** -/
theorem IsReduced.eq_of_isEqual (hd : d.IsReduced) (he : e.IsReduced) (h : d.IsEqual e) : d = e := by
  have hplaces : d.places = e.places := (hd.places_le h.symm).antisymm (he.places_le h)
  have hdigits : d.digits = e.digits := by
    rw [IsEqual, hplaces] at h
    exact Nat.eq_of_mul_eq_mul_right (powerOfTen_pos e.places) h
  cases d
  cases e
  rw [mk.injEq]
  exact ⟨hdigits, hplaces⟩

end Decimal

/-! ### Fractions with a sign -/

lemma withSign_mul (s : Bool) (m n : ℕ) : withSign s (m * n) = withSign s m * n := by
  cases s <;> simp [withSign]

/-- Only zero has two signs. -/
lemma withSign_eq_withSign_iff {s t : Bool} {m n : ℕ} :
    withSign s m = withSign t n ↔ m = n ∧ (s = t ∨ m = 0) := by
  cases s <;> cases t <;> simp [withSign] <;> omega

/-- The value of a decimal fraction behind a sign. -/
def Decimal.signedValue (negative : Bool) (d : Decimal) : ℚ :=
  withSign negative d.digits / powerOfTen d.places

lemma Decimal.signedValue_eq_iff {s t : Bool} {d e : Decimal} :
    d.signedValue s = e.signedValue t ↔ d.IsEqual e ∧ (s = t ∨ d.digits = 0) := by
  have hd := powerOfTen_pos d.places
  have he := powerOfTen_pos e.places
  have hd' : (powerOfTen d.places : ℚ) ≠ 0 := Nat.cast_ne_zero.mpr hd.ne'
  have he' : (powerOfTen e.places : ℚ) ≠ 0 := Nat.cast_ne_zero.mpr he.ne'
  have hcross : d.signedValue s = e.signedValue t ↔
      withSign s (d.digits * powerOfTen e.places) = withSign t (e.digits * powerOfTen d.places) := by
    rw [signedValue, signedValue, div_eq_div_iff hd' he', withSign_mul, withSign_mul]
    exact_mod_cast Iff.rfl
  rw [hcross, withSign_eq_withSign_iff, Nat.mul_eq_zero, or_iff_left he.ne']
  rfl

namespace Numeral

variable {n m : Numeral}

/-- The number that a numeral denotes. -/
def toRat (n : Numeral) : ℚ :=
  n.magnitude.signedValue n.negative

lemma IsTrimmed.ofDigitChars_mod (h : IsTrimmed fraction) (hne : fraction ≠ []) (t : Text) :
    Nat.ofDigitChars 10 (t ++ fraction) 0 % 10 ≠ 0 := by
  obtain ⟨front, c, rfl⟩ : ∃ front c, fraction = front ++ [c] :=
    ⟨_, _, (List.dropLast_append_getLast hne).symm⟩
  obtain ⟨d, hd, rfl⟩ := exists_digitChar (h.isDigit c (by simp))
  have hnonzero : d ≠ 0 := by
    rintro rfl
    exact h.last _ List.getLast?_concat rfl
  rw [← List.append_assoc, ofDigitChars_concat hd]
  omega

lemma IsCanonical.isReduced (h : n.IsCanonical) : n.magnitude.IsReduced := by
  by_cases hnil : n.fraction = []
  · exact Or.inl (by rw [magnitude, hnil, List.length_nil])
  · exact Or.inr (h.fraction.ofDigitChars_mod hnil n.whole)

/-- The digits in front of the point and those behind it are a quotient and its remainder. -/
lemma IsCanonical.div_mod (h : n.IsCanonical) :
    n.magnitude.digits / powerOfTen n.magnitude.places = Nat.ofDigitChars 10 n.whole 0 ∧
    n.magnitude.digits % powerOfTen n.magnitude.places = Nat.ofDigitChars 10 n.fraction 0 := by
  have hlt := ofDigitChars_lt h.fraction.isDigit
  have hdigits : n.magnitude.digits = powerOfTen n.fraction.length * Nat.ofDigitChars 10 n.whole 0 +
      Nat.ofDigitChars 10 n.fraction 0 := by
    rw [magnitude, Nat.ofDigitChars_append, Nat.ofDigitChars_eq_ofDigitChars_zero]
    rfl
  change _ / powerOfTen n.fraction.length = _ ∧ _ % powerOfTen n.fraction.length = _
  rw [hdigits, Nat.mul_add_div (powerOfTen_pos _), Nat.div_eq_of_lt hlt, Nat.add_zero,
    Nat.mul_add_mod, Nat.mod_eq_of_lt hlt]
  exact ⟨rfl, rfl⟩

/-- **Two canonical numerals of one magnitude have the same digits.** -/
theorem IsCanonical.eq_of_isEqual (hn : n.IsCanonical) (hm : m.IsCanonical)
    (h : n.magnitude.IsEqual m.magnitude) : n.whole = m.whole ∧ n.fraction = m.fraction := by
  have heq := hn.isReduced.eq_of_isEqual hm.isReduced h
  have hlength : n.fraction.length = m.fraction.length := congrArg Decimal.places heq
  obtain ⟨hwhole, hfraction⟩ := hn.div_mod
  obtain ⟨hwhole', hfraction'⟩ := hm.div_mod
  rw [heq] at hwhole hfraction
  constructor
  · rw [← hn.whole.ofNat_eq, ← hm.whole.ofNat_eq, ← hwhole, hwhole']
  · refine eq_of_ofDigitChars_eq hn.fraction.isDigit hm.fraction.isDigit hlength ?_
    rw [← hfraction, hfraction']

/-- A zero with a sign. -/
def IsNegativeZero (n : Numeral) : Prop :=
  n.negative = true ∧ n.whole = ['0'] ∧ n.fraction = []

instance (n : Numeral) : Decidable n.IsNegativeZero :=
  inferInstanceAs (Decidable (_ ∧ _ ∧ _))

lemma IsCanonical.of_digits_eq_zero (h : n.IsCanonical) (hzero : n.magnitude.digits = 0) :
    n.whole = ['0'] ∧ n.fraction = [] := by
  constructor
  · rw [← h.whole.ofNat_eq, ← h.div_mod.1, hzero, Nat.zero_div]
    rfl
  · rcases h.isReduced with hplaces | hlast
    · exact List.length_eq_zero_iff.mp hplaces
    · rw [hzero] at hlast
      exact absurd rfl hlast

/-- **A number has one canonical numeral**, if zero is written without a sign. -/
theorem IsCanonical.eq_of_toRat_eq (hn : n.IsCanonical) (hm : m.IsCanonical)
    (hnzero : ¬ n.IsNegativeZero) (hmzero : ¬ m.IsNegativeZero) (h : n.toRat = m.toRat) : n = m := by
  obtain ⟨hequal, hsign⟩ := Decimal.signedValue_eq_iff.mp h
  obtain ⟨hwhole, hfraction⟩ := hn.eq_of_isEqual hm hequal
  have hnegative : n.negative = m.negative := by
    refine hsign.elim id fun hzero => ?_
    obtain ⟨hn', hn''⟩ := hn.of_digits_eq_zero hzero
    have hnpositive : n.negative = false :=
      Bool.eq_false_iff.mpr fun hneg => hnzero ⟨hneg, hn', hn''⟩
    have hmpositive : m.negative = false :=
      Bool.eq_false_iff.mpr fun hneg => hmzero ⟨hneg, hwhole ▸ hn', hfraction ▸ hn''⟩
    rw [hnpositive, hmpositive]
  cases n
  cases m
  rw [mk.injEq]
  exact ⟨hnegative, hwhole, hfraction⟩

/-! ### Numerals of fractions -/

/-- What has to be known of a numeral to read its text: there may be zeros at its end. -/
structure IsPlain (n : Numeral) : Prop where
  whole : IsWhole n.whole
  fraction : ∀ c ∈ n.fraction, c.isDigit = true

lemma IsCanonical.isPlain (h : n.IsCanonical) : n.IsPlain :=
  ⟨h.whole, h.fraction.isDigit⟩

lemma IsPlain.spells (h : n.IsPlain) : n.magnitude.Spells n.whole n.fraction :=
  ⟨h.whole.isDigit, h.fraction, h.whole.ne_nil, rfl, rfl⟩

/-- The text of a numeral determines it. -/
lemma IsPlain.eq_of_spelling_eq (hn : n.IsPlain) (hm : m.IsPlain) (h : n.spelling = m.spelling) :
    n = m := by
  have hread : leading? (n.spelling ++ []) = some n := hn.spells.leading?_signed noFraction_nil
  have hread' : leading? (m.spelling ++ []) = some m := hm.spells.leading?_signed noFraction_nil
  rw [h] at hread
  exact Option.some.inj (hread.symm.trans hread')

/-- The digits of a fraction with the fewest places do not end with a zero. -/
lemma isTrimmed_of_spells {d : Decimal} (h : d.Spells whole fraction) (hd : d.IsReduced) :
    IsTrimmed fraction := by
  refine ⟨h.fraction_digits, ?_⟩
  rintro c hc rfl
  obtain ⟨front, rfl⟩ := List.getLast?_eq_some_iff.mp hc
  rcases hd with hzero | hlast
  · have hplaces := h.places
    rw [hzero, List.length_append] at hplaces
    exact absurd hplaces (by simp)
  · have hconcat : Nat.ofDigitChars 10 (whole ++ front ++ ['0']) 0 =
        10 * Nat.ofDigitChars 10 (whole ++ front) 0 + 0 := ofDigitChars_concat (Nat.succ_pos 9) _
    have hvalue := h.value
    rw [← List.append_assoc, hconcat] at hvalue
    omega

/-- **A fraction with a sign is written as a canonical numeral** of its value, and zero without a sign. -/
theorem exists_signedDecimal_eq (negative : Bool) (d : Decimal) : ∃ n : Numeral,
    signedDecimal negative d = n.spelling ∧ n.IsCanonical ∧ ¬ n.IsNegativeZero ∧
    n.magnitude = d.reduce ∧ n.toRat = d.signedValue negative := by
  obtain ⟨fraction, hspells, htext⟩ := Decimal.exists_fraction_spells d.reduce
  set whole := Text.ofNat (d.reduce.digits / powerOfTen d.reduce.places)
  set n : Numeral := ⟨negative && d.digits != 0, whole, fraction⟩ with hn
  have hequal := Decimal.isEqual_reduce d
  have hmagnitude : n.magnitude = d.reduce := by
    rw [magnitude, hn, hspells.value, hspells.places]
  refine ⟨n, ?_, ?_, ?_, hmagnitude, ?_⟩
  · rw [signedDecimal, Decimal.text, htext, spelling]
  · exact ⟨isWhole_ofNat _, isTrimmed_of_spells hspells (Decimal.isReduced_reduce d)⟩
  · rintro ⟨hsign, hwhole, hfraction⟩
    -- The digits are those of a zero, and a zero is written without a sign.
    have hzero : n.magnitude.digits = 0 := by
      rw [magnitude, hwhole, hfraction]
      rfl
    rw [hmagnitude, hequal.digits_eq_zero_iff] at hzero
    simp [hn, hzero] at hsign
  · calc n.toRat = d.reduce.signedValue (negative && d.digits != 0) := by rw [toRat, hmagnitude]
      _ = d.signedValue (negative && d.digits != 0) :=
          Decimal.signedValue_eq_iff.mpr ⟨hequal, Or.inl rfl⟩
      _ = d.signedValue negative := by
          refine Decimal.signedValue_eq_iff.mpr ⟨rfl, ?_⟩
          by_cases hzero : d.digits = 0
          · exact Or.inr hzero
          · exact Or.inl (by simp [hzero])

/-! ### Zeros at the end -/

/-- The numeral without the zeros at its end behind the point. -/
def trimZeros (n : Numeral) : Numeral :=
  { n with fraction := n.fraction.rdropWhile (· == '0') }

/-- The numeral without zeros at its end, and without a sign if it is a zero then. -/
def tidy (n : Numeral) : Numeral :=
  if n.trimZeros.IsNegativeZero then { n.trimZeros with negative := false } else n.trimZeros

lemma IsPlain.isCanonical_trimZeros (h : n.IsPlain) : n.trimZeros.IsCanonical := by
  refine ⟨h.whole, fun c hc => h.fraction c ((List.rdropWhile_prefix _ _).subset hc), ?_⟩
  rintro c hc rfl
  obtain ⟨hne, hlast⟩ := List.mem_getLast?_eq_getLast hc
  have hlast_ne := List.rdropWhile_last_not (· == '0') n.fraction hne
  exact hlast_ne (beq_iff_eq.mpr hlast.symm)

/-- Zeros at the end behind the point do not change the value. -/
lemma isEqual_trimZeros (n : Numeral) : n.trimZeros.magnitude.IsEqual n.magnitude := by
  obtain ⟨k, hk⟩ : ∃ k, n.fraction = n.trimZeros.fraction ++ List.replicate k '0' := by
    refine ⟨(n.fraction.rtakeWhile (· == '0')).length, ?_⟩
    have hzeros : n.fraction.rtakeWhile (· == '0') = List.replicate _ '0' :=
      List.eq_replicate_of_mem fun c hc => by
        have hzero := List.mem_rtakeWhile_imp hc
        exact beq_iff_eq.mp hzero
    rw [← hzeros]
    exact List.rdropWhile_append_rtakeWhile.symm
  have hdigits : n.magnitude.digits = powerOfTen k * n.trimZeros.magnitude.digits := by
    rw [magnitude, hk, ← List.append_assoc, Nat.ofDigitChars_append, Nat.ofDigitChars_replicate_zero]
    rfl
  have hplaces : n.magnitude.places = n.trimZeros.magnitude.places + k := by
    rw [magnitude, hk, List.length_append, List.length_replicate]
    rfl
  rw [Decimal.IsEqual, hdigits, hplaces, Decimal.powerOfTen_add]
  ring

end Numeral

/-- A text with a point without the zeros at its end, and without the point if it is then the last
character. -/
def Text.trimZeros (t : Text) : Text :=
  if '.' ∈ t then (t.rdropWhile (· == '0')).rdropWhile (· == '.') else t

/-- A text without zeros at its end, and without a sign if it is a zero then. -/
def Text.tidy (t : Text) : Text :=
  if t.trimZeros = ['-', '0'] then ['0'] else t.trimZeros

lemma rdropWhile_append (p : Char → Bool) (u v : Text) : (u ++ v).rdropWhile p =
    if v.rdropWhile p = [] then u.rdropWhile p else u ++ v.rdropWhile p := by
  induction v using List.reverseRecOn with
  | nil => simp
  | append_singleton v c ih =>
      rw [← List.append_assoc, List.rdropWhile_concat, List.rdropWhile_concat]
      split
      · exact ih
      · rw [if_neg (by simp), List.append_assoc]

/-- A text that ends with a digit does not end with a point. -/
lemma rdropWhile_point (hne : t ≠ []) (h : (t.getLast hne).isDigit = true) :
    t.rdropWhile (· == '.') = t := by
  refine List.rdropWhile_eq_self_iff.mpr fun _ hpoint => ?_
  rw [beq_iff_eq.mp hpoint] at h
  exact absurd h (by decide)

namespace Numeral

variable {n : Numeral}

/-- The part of a numeral in front of its point. -/
def front (n : Numeral) : Text :=
  signed n.negative n.whole

lemma spelling_eq (n : Numeral) : n.spelling =
    if n.fraction = [] then n.front else n.front ++ '.' :: n.fraction := by
  rw [spelling, front, Decimal.positional]
  cases n.negative <;> split <;> rfl

lemma IsWhole.point_not_mem (h : IsWhole n.whole) : '.' ∉ n.front := by
  rw [front, signed]
  have hwhole : '.' ∉ n.whole := fun hmem => absurd (h.isDigit _ hmem) (by decide)
  split
  · simpa using hwhole
  · exact hwhole

/-- The part in front of a point ends with a digit. -/
lemma IsWhole.rdropWhile_front (h : IsWhole n.whole) : n.front.rdropWhile (· == '.') = n.front := by
  obtain ⟨sign, hfront⟩ : ∃ sign, n.front = sign ++ n.whole := by
    rw [front, signed]
    split
    · exact ⟨['-'], rfl⟩
    · exact ⟨[], rfl⟩
  have hne : n.front ≠ [] := by
    rw [hfront]
    exact List.append_ne_nil_of_right_ne_nil _ h.ne_nil
  refine rdropWhile_point hne ?_
  simp only [hfront, List.getLast_append_of_ne_nil _ h.ne_nil]
  exact h.isDigit _ (List.getLast_mem _)

/-- Trimming the text of a numeral trims the digits behind its point, and the point with the last of
them. -/
lemma IsPlain.trimZeros_spelling (h : n.IsPlain) :
    Text.trimZeros n.spelling = n.trimZeros.spelling := by
  rw [spelling_eq, spelling_eq, Text.trimZeros]
  change _ = if n.fraction.rdropWhile (· == '0') = [] then n.front
    else n.front ++ '.' :: n.fraction.rdropWhile (· == '0')
  by_cases hnil : n.fraction = []
  · rw [if_pos hnil, if_neg h.whole.point_not_mem, hnil, if_pos (List.rdropWhile_nil _)]
  · rw [if_neg hnil, if_pos (by simp), List.append_cons, rdropWhile_append]
    split
    · rw [List.rdropWhile_concat_neg _ _ _ (by decide), List.rdropWhile_concat_pos _ _ _ (by decide),
        h.whole.rdropWhile_front]
    · next hne =>
        have hlast : ((n.front ++ ['.'] ++ n.fraction.rdropWhile (· == '0')).getLast
            (List.append_ne_nil_of_right_ne_nil _ hne)).isDigit = true := by
          rw [List.getLast_append_of_ne_nil _ hne]
          exact h.fraction _ ((List.rdropWhile_prefix _ _).subset (List.getLast_mem hne))
        rw [rdropWhile_point _ hlast, List.append_assoc]
        rfl

/-- The text of a zero with a sign is the text of no other numeral. -/
lemma IsWhole.spelling_eq_iff (h : IsWhole n.whole) :
    n.spelling = ['-', '0'] ↔ n.IsNegativeZero := by
  constructor
  · intro heq
    rw [spelling, signed] at heq
    split at heq
    · next hnegative =>
        have hpositional : Decimal.positional n.whole n.fraction = ['0'] := (List.cons.inj heq).2
        rw [Decimal.positional] at hpositional
        split at hpositional
        · next hnil => exact ⟨hnegative, hpositional, hnil⟩
        · have hpoint : '.' ∈ n.whole ++ '.' :: n.fraction := by simp
          rw [hpositional] at hpoint
          exact absurd hpoint (by decide)
    · -- Without a sign the text starts with a digit.
      obtain ⟨c, rest, hwhole⟩ := List.exists_cons_of_ne_nil h.ne_nil
      have hc : c.isDigit = true := h.isDigit c (by rw [hwhole]; exact List.mem_cons_self)
      have hhead : c = '-' := by
        rw [Decimal.positional, hwhole] at heq
        split at heq <;> exact (List.cons.inj heq).1
      rw [hhead] at hc
      exact absurd hc (by decide)
  · rintro ⟨hnegative, hwhole, hfraction⟩
    rw [spelling, hnegative, hwhole, hfraction]
    rfl

/-- **Tidying the text of a numeral** tidies the numeral. -/
theorem IsPlain.tidy_spelling (h : n.IsPlain) : Text.tidy n.spelling = n.tidy.spelling := by
  have hzero : n.trimZeros.spelling = ['-', '0'] ↔ n.trimZeros.IsNegativeZero :=
    h.isCanonical_trimZeros.whole.spelling_eq_iff
  rw [Text.tidy, h.trimZeros_spelling, tidy]
  by_cases hnegative : n.trimZeros.IsNegativeZero
  · rw [if_pos (hzero.mpr hnegative), if_pos hnegative, spelling, hnegative.2.1, hnegative.2.2]
    rfl
  · rw [if_neg (mt hzero.mp hnegative), if_neg hnegative]

lemma not_isNegativeZero_tidy (n : Numeral) : ¬ n.tidy.IsNegativeZero := by
  rw [tidy]
  split
  · exact fun h => Bool.noConfusion h.1
  · next h => exact h

lemma IsPlain.isCanonical_tidy (h : n.IsPlain) : n.tidy.IsCanonical := by
  rw [tidy]
  split
  · exact ⟨h.isCanonical_trimZeros.whole, h.isCanonical_trimZeros.fraction⟩
  · exact h.isCanonical_trimZeros

/-- Nothing but the sign of a zero is lost. -/
lemma toRat_tidy (n : Numeral) : n.tidy.toRat = n.toRat := by
  have htrim : n.trimZeros.toRat = n.toRat :=
    Decimal.signedValue_eq_iff.mpr ⟨isEqual_trimZeros n, Or.inl rfl⟩
  rw [tidy]
  split
  · next hzero =>
      have hdigits : n.trimZeros.magnitude.digits = 0 := by
        rw [magnitude, hzero.2.1, hzero.2.2]
        rfl
      rw [← htrim]
      exact Decimal.signedValue_eq_iff.mpr ⟨rfl, Or.inr hdigits⟩
  · exact htrim

end Numeral

end DrillCycles
