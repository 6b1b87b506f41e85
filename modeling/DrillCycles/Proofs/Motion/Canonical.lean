import DrillCycles.Output
import DrillCycles.Proofs.Decimal.Canonical
import DrillCycles.Proofs.Motion.Writing
import Mathlib.Algebra.Order.Field.Basic
import Mathlib.Algebra.Order.Field.Rat
import Mathlib.Tactic.FieldSimp
import Mathlib.Tactic.Linarith

/-!
# Equal lines are equal numbers

With a precision, a number is rounded and its canonical numeral is written.  `Binary64.rounding` is the
rounding as a rational number (`isRoundedTo_rounding` says that it is the nearest one), and
`exists_written_eq` that its canonical numeral is the text.  So two texts are equal exactly if the
roundings are (`written_eq_iff`), and two lines of moves exactly if they are the same moves number by
number (`Motion.written_eq_iff`).

**Another way to the same text.**  `IsFixed` describes how a number is written with a fixed count of
places, zeros at the end included.  The sign of a zero is left open.  A text of this form that is tidied
is the canonical numeral of the rounding, because there is only one.

**Main result.**  `canonical_numerals` is all of this for any function that writes numbers with a fixed
count of places.
-/

namespace DrillCycles

open Numeral

variable {places : ℕ} {x y : Binary64} {t : Text}

namespace Binary64

/-! ### Rounding -/

/-- The exact value of a finite number. -/
def exactValue (x : Binary64) : ℚ :=
  exactUnits x / unitsPerOne

/-- The number with so many decimal places that is nearest to another one; half-way, the one with the even
last digit. -/
def IsRoundedTo (places : ℕ) (exact rounded : ℚ) : Prop :=
  ∃ n : ℤ, rounded = n / powerOfTen places ∧ 2 * |exact * powerOfTen places - n| ≤ 1 ∧
    (2 * |exact * powerOfTen places - n| = 1 → Even n)

/-- A finite number rounded to decimal places. -/
def rounding (places : ℕ) : Binary64 → ℚ
  | .finite negative rank => (Decimal.roundedTo places rank).signedValue negative
  | _ => 0

lemma abs_withSign_div_sub (negative : Bool) {num den n : ℕ} (hden : 0 < den) :
    |(withSign negative num : ℚ) / den - withSign negative n| = |(num : ℚ) - n * den| / den := by
  have hden' : (0 : ℚ) < den := Nat.cast_pos.mpr hden
  have habs : |(withSign negative num : ℚ) / den - withSign negative n| = |(num : ℚ) / den - n| := by
    cases negative with
    | false => simp [withSign]
    | true =>
        rw [← abs_neg]
        simp [withSign]
        ring_nf
  have hdiv : (num : ℚ) / den - n = (num - n * den) / den := by
    field_simp
  rw [habs, hdiv, abs_div, abs_of_pos hden']

lemma isRoundedTo_rounding (hx : x.isFinite = true) :
    IsRoundedTo places x.exactValue (x.rounding places) := by
  obtain ⟨negative, rank, rfl⟩ := exists_of_isFinite hx
  set num := units rank * powerOfTen places with hnum
  set n := divHalfEven num unitsPerOne with hn
  have hlow := two_mul_le_divHalfEven unitsPerOne_pos num
  have hhigh := two_mul_divHalfEven_le num unitsPerOne
  have hdistance : |exactValue (.finite negative rank) * powerOfTen places - withSign negative n| =
      |(num : ℚ) - n * unitsPerOne| / unitsPerOne := by
    rw [← abs_withSign_div_sub negative unitsPerOne_pos, hnum, withSign_mul, exactValue, exactUnits,
      signedUnits_eq]
    push_cast
    ring_nf
  have hpos : (0 : ℚ) < unitsPerOne := Nat.cast_pos.mpr unitsPerOne_pos
  refine ⟨withSign negative n, rfl, ?_, fun htie => ?_⟩
  · have hlow' : (2 : ℚ) * num ≤ 2 * (n * unitsPerOne) + unitsPerOne := by exact_mod_cast hlow
    have hhigh' : (2 : ℚ) * (n * unitsPerOne) ≤ 2 * num + unitsPerOne := by exact_mod_cast hhigh
    have habs : |(num : ℚ) - n * unitsPerOne| ≤ unitsPerOne / 2 :=
      abs_le.mpr ⟨by linarith, by linarith⟩
    rw [hdistance, ← mul_div_assoc, div_le_one hpos]
    linarith
  · rw [hdistance, ← mul_div_assoc, div_eq_one_iff_eq hpos.ne'] at htie
    have hhalf : 2 * num = 2 * (n * unitsPerOne) + unitsPerOne ∨
        2 * (n * unitsPerOne) = 2 * num + unitsPerOne := by
      rcases abs_choice ((num : ℚ) - n * unitsPerOne) with habs | habs <;> rw [habs] at htie
      · refine Or.inl (Nat.cast_injective (R := ℚ) ?_)
        push_cast
        linarith
      · refine Or.inr (Nat.cast_injective (R := ℚ) ?_)
        push_cast
        linarith
    have heven : Even (n : ℤ) := Int.even_coe_nat n |>.mpr (even_divHalfEven hhalf unitsPerOne_pos)
    cases negative with
    | false => exact heven
    | true => exact heven.neg

/-! ### The text of a rounding -/

/-- **The text of a number is the canonical numeral of its rounding.** -/
theorem exists_written_eq (hx : x.isFinite = true) (places : ℕ) : ∃ n : Numeral,
    x.written (some places) = n.spelling ∧ n.IsCanonical ∧ ¬ n.IsNegativeZero ∧
    n.toRat = x.rounding places ∧ n.fraction.length ≤ places := by
  obtain ⟨negative, rank, rfl⟩ := exists_of_isFinite hx
  set d := Decimal.rounded places rank
  obtain ⟨n, htext, hcanonical, hzero, hmagnitude, hvalue⟩ := exists_signedDecimal_eq negative d
  refine ⟨n, htext, hcanonical, hzero, ?_, ?_⟩
  · rw [hvalue]
    exact Decimal.signedValue_eq_iff.mpr ⟨Decimal.isEqual_rounded places rank, Or.inl rfl⟩
  · calc n.fraction.length = d.reduce.places := congrArg Decimal.places hmagnitude
      _ ≤ d.places := Decimal.places_reduceFrom_le d.digits d.places
      _ ≤ places := Nat.min_le_left _ _

/-- **Texts are equal exactly if the roundings are.** -/
theorem written_eq_iff (hx : x.isFinite = true) (hy : y.isFinite = true) :
    x.written (some places) = y.written (some places) ↔ x.rounding places = y.rounding places := by
  obtain ⟨n, hn, hcanonical, hzero, hvalue, -⟩ := exists_written_eq hx places
  obtain ⟨m, hm, hcanonical', hzero', hvalue', -⟩ := exists_written_eq hy places
  rw [hn, hm, ← hvalue, ← hvalue']
  constructor
  · intro h
    rw [hcanonical.isPlain.eq_of_spelling_eq hcanonical'.isPlain h]
  · intro h
    rw [hcanonical.eq_of_toRat_eq hcanonical' hzero hzero' h]

/-! ### A fixed count of places -/

/-- A number that is written with so many places: perhaps a minus sign, digits without superfluous zeros
in front, and a point and exactly so many digits if there are any places. -/
def IsFixed (places : ℕ) (value : ℚ) (t : Text) : Prop :=
  ∃ n : Numeral, t = n.spelling ∧ n.IsPlain ∧ n.fraction.length = places ∧ n.toRat = value

/-- What is written with a fixed count of places and tidied is the text of the number. -/
lemma tidy_eq_written (hx : x.isFinite = true) (ht : IsFixed places (x.rounding places) t) :
    Text.tidy t = x.written (some places) := by
  obtain ⟨n, rfl, hplain, -, hvalue⟩ := ht
  obtain ⟨m, hm, hcanonical, hzero, hvalue', -⟩ := exists_written_eq hx places
  have hsame : n.tidy = m := by
    refine hplain.isCanonical_tidy.eq_of_toRat_eq hcanonical (not_isNegativeZero_tidy n) hzero ?_
    rw [toRat_tidy, hvalue, hvalue']
  rw [hplain.tidy_spelling, hsame, hm]

end Binary64

/-! ### Moves -/

namespace Motion

variable {m m' : Motion}

/-- The same moves, number by number. -/
structure AgreeAt (places : ℕ) (m m' : Motion) : Prop where
  kind : m.kind = m'.kind
  words : List.Forall₂ (fun word word' => word.1 = word'.1 ∧
    word.2.rounding places = word'.2.rounding places) m.words m'.words

/-- A number holds no space, so what follows it is found. -/
lemma append_eq_append_of_space {u v rest rest' : Text} (hu : ' ' ∉ u) (hv : ' ' ∉ v)
    (hrest : ∀ c, rest.head? = some c → c = ' ') (hrest' : ∀ c, rest'.head? = some c → c = ' ')
    (h : u ++ rest = v ++ rest') : u = v ∧ rest = rest' := by
  rcases List.append_eq_append_iff.mp h with ⟨w, rfl, hw⟩ | ⟨w, rfl, hw⟩
  · cases w with
    | nil => exact ⟨(List.append_nil u).symm, hw⟩
    | cons c w =>
        obtain rfl := hrest c (by rw [hw]; rfl)
        exact absurd (List.mem_append_right u List.mem_cons_self) hv
  · cases w with
    | nil => exact ⟨List.append_nil v, hw.symm⟩
    | cons c w =>
        obtain rfl := hrest' c (by rw [hw]; rfl)
        exact absurd (List.mem_append_right v List.mem_cons_self) hu

lemma space_not_mem_written (precision : Option ℕ) (x : Binary64) : ' ' ∉ x.written precision :=
  fun hmem => absurd (Binary64.isNumeralChar_of_mem_written hmem).not_isBlank (by decide)

lemma eq_space_of_head?_words {precision : Option ℕ} {words : List (Char × Binary64)} {c : Char}
    (h : (words.flatMap (writtenWord precision)).head? = some c) : c = ' ' := by
  cases words with
  | nil => cases h
  | cons word words => exact (Option.some.inj h).symm

/-- Words are written alike exactly if they are the same, number by number. -/
lemma flatMap_writtenWord_eq_iff {words words' : List (Char × Binary64)}
    (h : ∀ word ∈ words, word.2.isFinite = true) (h' : ∀ word ∈ words', word.2.isFinite = true) :
    words.flatMap (writtenWord (some places)) = words'.flatMap (writtenWord (some places)) ↔
      List.Forall₂ (fun word word' => word.1 = word'.1 ∧
        word.2.rounding places = word'.2.rounding places) words words' := by
  induction words generalizing words' with
  | nil =>
      cases words' with
      | nil => exact iff_of_true rfl .nil
      | cons word' words' => exact iff_of_false nofun nofun
  | cons word words ih =>
      cases words' with
      | nil => exact iff_of_false nofun nofun
      | cons word' words' =>
          obtain ⟨hword, hwords⟩ := List.forall_mem_cons.mp h
          obtain ⟨hword', hwords'⟩ := List.forall_mem_cons.mp h'
          rw [List.forall₂_cons, ← ih hwords hwords', ← Binary64.written_eq_iff hword hword',
            List.flatMap_cons, List.flatMap_cons, writtenWord, writtenWord]
          constructor
          · intro heq
            rw [List.cons_append, List.cons_append, List.cons_append, List.cons_append,
              List.cons.injEq, List.cons.injEq] at heq
            obtain ⟨-, hletter, hrest⟩ := heq
            obtain ⟨hnumber, hrest⟩ := append_eq_append_of_space (space_not_mem_written _ _)
              (space_not_mem_written _ _) (fun c => eq_space_of_head?_words)
              (fun c => eq_space_of_head?_words) hrest
            exact ⟨⟨hletter, hnumber⟩, hrest⟩
          · rintro ⟨⟨hletter, hnumber⟩, hrest⟩
            rw [hletter, hnumber, hrest]

/-- **Lines are equal exactly if the moves agree.** -/
theorem written_eq_iff (h : ∀ word ∈ m.words, word.2.isFinite = true)
    (h' : ∀ word ∈ m'.words, word.2.isFinite = true) :
    m.written (some places) = m'.written (some places) ↔ AgreeAt places m m' := by
  have hcode : ∀ kind kind' : MoveKind, kind.code.length = kind'.code.length ∧
      (kind.code = kind'.code ↔ kind = kind') := by
    intro kind kind'
    cases kind <;> cases kind' <;> decide
  rw [written, written]
  constructor
  · intro heq
    obtain ⟨hkind, hwords⟩ := List.append_inj heq (hcode _ _).1
    exact ⟨(hcode _ _).2.mp hkind, (flatMap_writtenWord_eq_iff h h').mp hwords⟩
  · rintro ⟨hkind, hwords⟩
    rw [hkind, (flatMap_writtenWord_eq_iff h h').mpr hwords]

end Motion

/-- With suppression a line is left out exactly if it repeats the last one. -/
lemma Output.lines_emit_true_eq_iff (output : Output) (line : Text) :
    (output.emit true line).lines = output.lines ↔ output.last = some line := by
  rw [emit, Bool.true_and]
  split
  · next hlast => exact iff_of_true rfl (beq_iff_eq.mp hlast)
  · next hlast =>
      refine iff_of_false (fun hlines => ?_) fun h => hlast (beq_iff_eq.mpr h)
      have hsize := congrArg Array.size hlines
      rw [Array.size_push] at hsize
      omega

namespace Binary64

/-- **Canonical numerals.**  Let numbers be written somehow with a fixed count of places.  Then the numeral
of a finite number is what is written so, but tidied.  It denotes the rounding of the number, has no
superfluous zeros and no more places than were asked for, and is never a zero with a sign.  Two numbers
have the same numeral exactly if they have the same rounding.  So two moves are the same line exactly if
they agree number by number, and a line that is left out behind another one is one that agrees with it. -/
theorem canonical_numerals (fixed : ℕ → Binary64 → Text)
    (hfixed : ∀ places ≤ maxPrecision, ∀ x, x.isFinite = true →
      IsFixed places (x.rounding places) (fixed places x))
    {places : ℕ} (hplaces : places ≤ maxPrecision) :
    (∀ x : Binary64, x.isFinite = true → IsRoundedTo places x.exactValue (x.rounding places) ∧
      ∃ n : Numeral, x.numeral (some places) = .ok n.spelling ∧
        n.spelling = Text.tidy (fixed places x) ∧ n.toRat = x.rounding places ∧ n.IsCanonical ∧
        n.fraction.length ≤ places ∧ n.spelling ≠ ['-', '0']) ∧
    (∀ x y : Binary64, x.isFinite = true → y.isFinite = true →
      (x.numeral (some places) = y.numeral (some places) ↔ x.rounding places = y.rounding places)) ∧
    ∀ m m' : Motion, (∀ word ∈ m.words, word.2.isFinite = true) →
      (∀ word ∈ m'.words, word.2.isFinite = true) →
      ∃ line line', m.render (some places) = .ok line ∧ m'.render (some places) = .ok line' ∧
        (line = line' ↔ m.AgreeAt places m') ∧
        ∀ output : Output, output.last = some line →
          ((output.emit true line').lines = output.lines ↔ m.AgreeAt places m') := by
  have hserved : servable (some places) = true := decide_eq_true hplaces
  have hnumeral : ∀ x : Binary64, x.numeral (some places) = .ok (x.written (some places)) := by
    intro x
    rw [numeral_eq, if_pos hserved]
  have hrender : ∀ m : Motion, m.render (some places) = .ok (m.written (some places)) := by
    intro m
    rw [Motion.render_eq, hserved, Bool.true_or, if_pos rfl]
  refine ⟨fun x hx => ⟨isRoundedTo_rounding hx, ?_⟩, fun x y hx hy => ?_, fun m m' hm hm' => ?_⟩
  · obtain ⟨n, hwritten, hcanonical, hzero, hvalue, hlength⟩ := exists_written_eq hx places
    refine ⟨n, by rw [hnumeral, hwritten], ?_, hvalue, hcanonical, hlength,
      mt hcanonical.whole.spelling_eq_iff.mp hzero⟩
    rw [tidy_eq_written hx (hfixed places hplaces x hx), hwritten]
  · rw [hnumeral, hnumeral, Except.ok.injEq]
    exact written_eq_iff hx hy
  · refine ⟨_, _, hrender m, hrender m', Motion.written_eq_iff hm hm', fun output hlast => ?_⟩
    rw [Output.lines_emit_true_eq_iff, hlast, Option.some.injEq]
    exact Motion.written_eq_iff hm hm'

/-- A number with a fixed count of places, also those that are zero. -/
def padded (places : ℕ) : Binary64 → Text
  | .finite negative rank => signed negative (Decimal.roundedTo places rank).paddedText
  | x => x.text

lemma isFixed_padded (hx : x.isFinite = true) (places : ℕ) :
    IsFixed places (x.rounding places) (x.padded places) := by
  obtain ⟨negative, rank, rfl⟩ := exists_of_isFinite hx
  obtain ⟨fraction, hspells, htext⟩ :=
    Decimal.exists_fraction_spells (Decimal.roundedTo places rank)
  set whole := Text.ofNat ((Decimal.roundedTo places rank).digits / _)
  have hplain : IsPlain ⟨negative, whole, fraction⟩ := ⟨isWhole_ofNat _, hspells.fraction_digits⟩
  refine ⟨⟨negative, whole, fraction⟩, ?_, hplain, hspells.places, ?_⟩
  · rw [padded, spelling, htext]
  · rw [toRat, magnitude, hspells.value, hspells.places]
    rfl

/-- At two places a thousandth below zero is a zero with a sign, and is written as zero. -/
theorem canonical_numerals_atTwoPlaces :
    (∀ places ≤ maxPrecision, ∀ x : Binary64, x.isFinite = true →
      IsFixed places (x.rounding places) (x.padded places)) ∧ 2 ≤ maxPrecision ∧
    (ofDecimal true 1 3).padded 2 = "-0.00".toList ∧
    (ofDecimal true 1 3).numeral (some 2) = .ok "0".toList ∧
    (ofDecimal true 1 3).rounding 2 = zero.rounding 2 ∧
    Text.tidy ((ofDecimal false 102 1).padded 2) = "10.2".toList := by
  have hfixed : ∀ places ≤ maxPrecision, ∀ x : Binary64, x.isFinite = true →
      IsFixed places (x.rounding places) (x.padded places) :=
    fun places _ x hx => isFixed_padded hx places
  obtain ⟨hwritten, hequal, -⟩ := canonical_numerals (fun places x => x.padded places) hfixed
    (show 2 ≤ maxPrecision by decide)
  refine ⟨hfixed, by decide, by decide +kernel, by decide +kernel, ?_, ?_⟩
  · exact (hequal _ _ (by decide +kernel) (by decide +kernel)).mp (by decide +kernel)
  · obtain ⟨-, n, hnumeral, htidy, -⟩ := hwritten (ofDecimal false 102 1) (by decide +kernel)
    have hdecimal : (ofDecimal false 102 1).numeral (some 2) = .ok "10.2".toList := by decide +kernel
    rw [← htidy]
    exact Except.ok.inj (hnumeral.symm.trans hdecimal)

end Binary64

end DrillCycles
