import DrillCycles.Proofs.Binary64.Arithmetic
import DrillCycles.Proofs.Decimal.Rounded
import DrillCycles.Proofs.Motion.Writing

/-!
# Reading written moves

The words of a written move are read back one for one.  A word ends where the next one begins, with a
space, and no number holds one of the letters that are looked for; so the reader finds a letter only
where a word was written (`valueIn?_written`), and behind it exactly the number of this word
(`leadingValue?_written`).

Without a precision the number that is read is the number that was written, except that a negative
zero comes back as zero; with one, it is the number nearest to the rounding.  `Binary64.reread` is the
common name of the two.
-/

namespace DrillCycles

open Numeral

variable {precision : Option ℕ} {x : Binary64} {rest t : Text} {a : Address} {m : Motion}

namespace Binary64

/-- The number without the sign of a negative zero. -/
def plain : Binary64 → Binary64
  | .finite negative rank => .finite (negative && rank.val != 0) rank
  | x => x

/-- The number nearest to the rounding of a number to decimal places; zero without a sign. -/
def atPlaces (places : ℕ) : Binary64 → Binary64
  | .finite negative rank =>
    let rounding := Decimal.roundedTo places rank
    ofDecimal (negative && rounding.digits != 0) rounding.digits rounding.places
  | x => x

/-- The number that is read where a number was written. -/
def reread : Option ℕ → Binary64 → Binary64
  | none => plain
  | some places => atPlaces places

/-- The two zeros are equal numbers. -/
lemma key?_plain (x : Binary64) : x.plain.key? = x.key? := by
  cases x with
  | finite negative rank =>
      rw [plain, key?, key?]
      by_cases hzero : rank.val = 0
      · simp [hzero]
      · simp [hzero]
  | _ => rfl

/-! ### Numbers -/

/-- A fraction without digits is zero, and only zero is written without digits. -/
lemma digits_shortest_eq_zero_iff (rank : ℕ) : (Decimal.shortest rank).digits = 0 ↔ rank = 0 := by
  constructor
  · intro hzero
    have hrank := Decimal.nearestRank_shortest rank
    rw [Decimal.nearestRank, hzero, Nat.zero_mul, nearestRank_zero (powerOfTen_pos _)] at hrank
    exact hrank.symm
  · rintro rfl
    rfl

/-- What is read is the number that the written fraction is rounded to. -/
lemma reread_finite (precision : Option ℕ) (negative : Bool) (rank : Fin rankLimit) :
    reread precision (.finite negative rank) =
      ofRank (negative && (decimal precision rank).digits != 0)
        (decimal precision rank).nearestRank := by
  cases precision with
  | none =>
      have hzero : ((Decimal.shortest rank).digits != 0) = (rank.val != 0) := by
        rw [Bool.eq_iff_iff, bne_iff_ne, bne_iff_ne, ne_eq, digits_shortest_eq_zero_iff]
      rw [decimal, hzero, Decimal.nearestRank_shortest, ofRank_val]
      rfl
  | some places =>
      have hequal := Decimal.isEqual_rounded places rank
      have hzero : ((Decimal.rounded places rank).digits != 0) =
          ((Decimal.roundedTo places rank).digits != 0) := by
        rw [Bool.eq_iff_iff, bne_iff_ne, bne_iff_ne, ne_eq, hequal.digits_eq_zero_iff]
      rw [decimal, hzero, hequal.nearestRank_eq]
      rfl

lemma isFinite_reread (h : x.isFinite = true) : (x.reread precision).isFinite = true := by
  cases x with
  | finite negative rank =>
      rw [reread_finite]
      refine isFinite_ofRank ?_
      cases precision with
      | none =>
          rw [decimal, Decimal.nearestRank_shortest]
          exact rank.isLt
      | some places =>
          rw [decimal, (Decimal.isEqual_rounded places rank).nearestRank_eq]
          exact Decimal.nearestRank_roundedTo_lt rank.isLt places
  | _ => cases h

/-- No magnitude is nearer to a decimal fraction than that of this rank. -/
def IsNearest (d : Decimal) (rank : ℕ) : Prop :=
  ∀ other : ℕ,
    ((units rank * powerOfTen d.places : ℕ) - (d.digits * unitsPerOne : ℕ) : ℤ).natAbs ≤
      ((units other * powerOfTen d.places : ℕ) - (d.digits * unitsPerOne : ℕ) : ℤ).natAbs

/-- What is read back with a precision is the number nearest to the rounding. -/
theorem atPlaces_nearest (places : ℕ) (negative : Bool) (rank : Fin rankLimit) :
    ∃ nearest : Fin rankLimit, atPlaces places (.finite negative rank) =
        .finite (negative && (Decimal.roundedTo places rank).digits != 0) nearest ∧
      IsNearest (Decimal.roundedTo places rank) nearest :=
  ⟨⟨_, Decimal.nearestRank_roundedTo_lt rank.isLt places⟩, dif_pos _,
    nearestRank_nearest (powerOfTen_pos places) _⟩

/-- A written number is read up to its end. -/
theorem leadingValue?_written (h : x.isFinite = true) (hrest : NoFraction rest) :
    leadingValue? (x.written precision ++ rest) = some (x.reread precision) := by
  have hfinite : (x.reread precision).isFinite = true := isFinite_reread h
  cases x with
  | finite negative rank =>
      rw [reread_finite] at hfinite ⊢
      rw [written, signedDecimal, Decimal.leadingValue?_signed _ _ hrest,
        Option.filter_some_pos hfinite]
  | _ => cases h

end Binary64

/-! ### Words -/

lemma letter_ne_of_isNumeralChar {c : Char} (h : Binary64.IsNumeralChar c) (a : Address) :
    c ≠ a.letter := by
  rintro rfl
  rcases h with h | h <;> cases a <;> revert h <;> decide

lemma letter_not_mem_written (x : Binary64) (a : Address) : a.letter ∉ x.written precision :=
  fun hmem => letter_ne_of_isNumeralChar (Binary64.isNumeralChar_of_mem_written hmem) a rfl

lemma space_ne_letter (a : Address) : ' ' ≠ a.letter := by
  cases a <;> decide

namespace Motion

lemma letter_not_mem_code (kind : MoveKind) (a : Address) : a.letter ∉ kind.code := by
  cases kind <;> cases a <;> decide

lemma noFraction_words (words : List (Char × Binary64)) :
    NoFraction (words.flatMap (writtenWord precision)) := by
  cases words with
  | nil => exact noFraction_nil
  | cons word words => exact noFraction_cons.mpr (by decide)

/-- A letter is found at the first word that has it. -/
lemma valueIn?_words {words : List (Char × Binary64)} (h : ∀ word ∈ words, word.2.isFinite = true)
    (a : Address) : a.valueIn? (words.flatMap (writtenWord precision)) =
      (words.lookup a.letter).map (Binary64.reread precision) := by
  induction words with
  | nil => rfl
  | cons word words ih =>
      obtain ⟨letter, x⟩ := word
      have hx : x.isFinite = true := h (letter, x) List.mem_cons_self
      have hwords := ih fun word hword => h word (List.mem_cons_of_mem _ hword)
      rw [List.flatMap_cons, writtenWord, List.cons_append, List.cons_append,
        Address.valueIn?_cons_of_ne (space_ne_letter a), Address.valueIn?_cons, List.lookup_cons]
      -- Behind the number stands a space or nothing, so no digit of it is missed or added.
      by_cases hletter : letter = a.letter
      · rw [if_pos hletter, Binary64.leadingValue?_written hx (noFraction_words words), hletter,
          beq_self_eq_true, Option.some_or]
        rfl
      · rw [if_neg hletter, Option.none_or,
          Address.valueIn?_append_of_not_mem (letter_not_mem_written x a), hwords,
          beq_eq_false_iff_ne.mpr (Ne.symm hletter)]

/-- **Written moves read back**: each letter has the value of its first word. -/
theorem valueIn?_written (h : ∀ word ∈ m.words, word.2.isFinite = true) (a : Address) :
    a.valueIn? (m.written precision) =
      (m.words.lookup a.letter).map (Binary64.reread precision) := by
  rw [written, Address.valueIn?_append_of_not_mem (letter_not_mem_code m.kind a), valueIn?_words h]

/-- A letter without a word is not found, whatever the numbers are. -/
lemma valueIn?_written_of_no_word (h : ∀ word ∈ m.words, word.1 ≠ a.letter) :
    a.valueIn? (m.written precision) = none := by
  refine Address.valueIn?_of_not_mem fun hmem => ?_
  rcases List.mem_append.mp hmem with hcode | hwords
  · exact letter_not_mem_code m.kind a hcode
  obtain ⟨word, hword, hc⟩ := List.mem_flatMap.mp hwords
  rcases List.mem_cons.mp hc with hspace | hc
  · exact space_ne_letter a hspace.symm
  rcases List.mem_cons.mp hc with hletter | hnumber
  · exact h word hword hletter.symm
  · exact letter_not_mem_written word.2 a hnumber

end Motion

/-- The value of the word with a letter. -/
def HoleWords.value (words : HoleWords) : Address → Option Binary64
  | .x => words.x
  | .y => words.y
  | .z => words.z
  | .r => words.r
  | .f => words.f
  | .p => words.p
  | .q => words.q

lemma HoleWords.value_read (t : Text) (a : Address) : (HoleWords.read t).value a = a.valueIn? t := by
  cases a <;> rfl

lemma Address.isFinite_of_valueIn? (h : a.valueIn? t = some x) : x.isFinite = true := by
  induction t with
  | nil => cases h
  | cons c t ih =>
      rw [Address.valueIn?_cons, Option.or_eq_some_iff] at h
      rcases h with hfirst | ⟨-, hrest⟩
      · split at hfirst
        · rw [leadingValue?, Option.filter_eq_some_iff] at hfirst
          exact hfirst.2
        · cases hfirst
      · exact ih hrest

end DrillCycles
