import DrillCycles.Proofs.Word.Bytes

/-!
# The grammar of words

Which words are read from a line, said without a scanner.

* **`Numeral.leading?_eq_some_iff`**: a numeral is the longest form at the start of a text.
* **`Address.valueIn?_eq_some_iff`**: a word is the leftmost occurrence of its letter that is directly
  followed by a numeral of finite value.

`word_grammar` adds what the positions in the bytes have to do with it.  The text of a numeral is handed
to a function that turns it into a number, and all that is asked of this function is that it knows every
form.
-/

namespace DrillCycles

variable {a : Address} {t line : Text} {c : Char} {n : Numeral} {v : Binary64}

namespace Numeral

/-- **What is read is the longest form.** -/
theorem leading?_eq_some_iff : leading? t = some n ↔ ∃ w, n.IsLongest w t := by
  rcases end?_cases t with ⟨-, hnone, hform⟩ | ⟨m, w, -, hread, hlongest⟩
  · rw [hnone]
    refine iff_of_false nofun ?_
    rintro ⟨w, hw⟩
    exact hform n w hw.form hw.starts
  · rw [hread, Option.some.injEq]
    constructor
    · rintro rfl
      exact ⟨w, hlongest⟩
    · rintro ⟨other, hother⟩
      exact (hlongest.unique hother).1

/-- The text starts with a numeral, the longest form there, and its value is this finite number. -/
def StartsWithValue (t : Text) (v : Binary64) : Prop :=
  ∃ (n : Numeral) (w : Text), n.IsLongest w t ∧ n.value = v ∧ v.isFinite = true

theorem leadingValue?_eq_some_iff : leadingValue? t = some v ↔ StartsWithValue t v := by
  simp only [leadingValue?, Option.filter_eq_some_iff, Option.map_eq_some_iff, leading?_eq_some_iff,
    StartsWithValue]
  grind

end Numeral

namespace Address

open Numeral

/-- No occurrence of the letter is directly followed by a numeral of finite value. -/
def NoWord (a : Address) (line : Text) : Prop :=
  ∀ (before behind : Text) (v : Binary64), line = before ++ a.letter :: behind →
    ¬ StartsWithValue behind v

/-- **The first word**: of the occurrences of the letter that are directly followed by a numeral of
finite value, the leftmost is followed by this one. -/
def IsFirstWord (a : Address) (line : Text) (v : Binary64) : Prop :=
  ∃ before behind : Text, line = before ++ a.letter :: behind ∧ StartsWithValue behind v ∧
    ∀ (before' behind' : Text) (v' : Binary64), line = before' ++ a.letter :: behind' →
      StartsWithValue behind' v' → before.length ≤ before'.length

lemma NoWord.cons (h : a.NoWord t) (hc : c = a.letter → ∀ v, ¬ StartsWithValue t v) :
    a.NoWord (c :: t) := by
  intro before behind v hline
  rcases List.cons_eq_append_iff.mp hline with ⟨-, hcons⟩ | ⟨before', -, htail⟩
  · obtain ⟨hletter, rfl⟩ := List.cons.inj hcons
    exact hc hletter.symm v
  · exact h before' behind v htail

lemma IsFirstWord.cons (h : a.IsFirstWord t v) (hc : c = a.letter → ∀ v, ¬ StartsWithValue t v) :
    a.IsFirstWord (c :: t) v := by
  obtain ⟨before, behind, rfl, hvalue, hleftmost⟩ := h
  refine ⟨c :: before, behind, rfl, hvalue, fun before' behind' v' hline hvalue' => ?_⟩
  rcases List.cons_eq_append_iff.mp hline with ⟨-, hcons⟩ | ⟨before'', rfl, htail⟩
  · obtain ⟨hletter, rfl⟩ := List.cons.inj hcons
    exact absurd hvalue' (hc hletter.symm v')
  · exact Nat.succ_le_succ (hleftmost before'' behind' v' htail hvalue')

/-- **Reading a word.** -/
theorem valueIn?_cases (a : Address) (line : Text) :
    (a.valueIn? line = none ∧ a.NoWord line) ∨
    ∃ v, a.valueIn? line = some v ∧ a.IsFirstWord line v := by
  induction line with
  | nil => exact Or.inl ⟨rfl, by simp [NoWord]⟩
  | cons c t ih =>
      by_cases hword : c = a.letter ∧ ∃ v, leadingValue? t = some v
      · obtain ⟨rfl, v, hv⟩ := hword
        refine Or.inr ⟨v, by rw [valueIn?_cons, if_pos rfl, hv, Option.some_or], ?_⟩
        exact ⟨[], t, rfl, leadingValue?_eq_some_iff.mp hv, fun _ _ _ _ _ => Nat.zero_le _⟩
      · have hnone : (if c = a.letter then leadingValue? t else none) = none := by
          split
          · next hletter =>
              exact Option.eq_none_iff_forall_ne_some.mpr fun v hv => hword ⟨hletter, v, hv⟩
          · rfl
        have hc : c = a.letter → ∀ v, ¬ StartsWithValue t v := fun hletter v hv =>
          hword ⟨hletter, v, leadingValue?_eq_some_iff.mpr hv⟩
        rw [valueIn?_cons, hnone, Option.none_or]
        exact ih.imp (And.imp_right (·.cons hc)) fun ⟨v, hv, hfirst⟩ => ⟨v, hv, hfirst.cons hc⟩

lemma IsFirstWord.unique {v' : Binary64} (h : a.IsFirstWord line v) (h' : a.IsFirstWord line v') :
    v = v' := by
  obtain ⟨before, behind, hline, hvalue, hleftmost⟩ := h
  obtain ⟨before', behind', hline', hvalue', hleftmost'⟩ := h'
  have hlength := (hleftmost _ _ _ hline' hvalue').antisymm (hleftmost' _ _ _ hline hvalue)
  have hbehind := List.append_inj_right (hline.symm.trans hline') hlength
  obtain rfl := (List.cons.inj hbehind).2
  rw [← leadingValue?_eq_some_iff] at hvalue hvalue'
  exact Option.some.inj (hvalue.symm.trans hvalue')

lemma IsFirstWord.not_noWord (h : a.IsFirstWord line v) : ¬ a.NoWord line := by
  obtain ⟨before, behind, hline, hvalue, -⟩ := h
  exact fun hnone => hnone before behind v hline hvalue

/-- **The word that is read is the first one.** -/
theorem valueIn?_eq_some_iff : a.valueIn? line = some v ↔ a.IsFirstWord line v := by
  rcases a.valueIn?_cases line with ⟨hnone, hword⟩ | ⟨v', hread, hfirst⟩
  · rw [hnone]
    exact iff_of_false nofun fun hfirst => hfirst.not_noWord hword
  · rw [hread, Option.some.injEq]
    exact ⟨fun heq => heq ▸ hfirst, hfirst.unique⟩

theorem valueIn?_eq_none_iff : a.valueIn? line = none ↔ a.NoWord line := by
  rcases a.valueIn?_cases line with ⟨hnone, hword⟩ | ⟨v, hread, hfirst⟩
  · exact iff_of_true hnone hword
  · exact iff_of_false (by simp [hread]) hfirst.not_noWord

section Parse

variable {parse : Text → Option Binary64}
variable (hparse : ∀ (n : Numeral) (w : Text), n.IsForm w → parse w = some n.value)

include hparse

/-- **Words are read by their grammar.**  Let a function know the value of every form of a numeral.  Then
for every line and letter every part of the line can be taken that is asked for, and the word that is
read is the first one; there is none exactly when no occurrence of the letter is directly followed by a
numeral of finite value.  Behind each occurrence, either no form of a numeral starts and none is looked
for any further, or the text that is cut out is the longest form there: the function does not reject it,
and it has no other characters than the ten digits, signs and at most one point. -/
theorem word_grammar (a : Address) (line : Text) :
    a.valueWith? parse line = some (a.valueIn? line) ∧
    (∀ v, a.valueIn? line = some v ↔ a.IsFirstWord line v) ∧
    (a.valueIn? line = none ↔ a.NoWord line) ∧
    ∀ before behind : Text, line = before ++ a.letter :: behind →
      line.onwards? (before.size + 1) = some behind ∧
      ((end? behind = some none ∧ NoForm behind) ∨
        ∃ (n : Numeral) (w : Text), end? behind = some (some w.size) ∧
          behind.upTo? w.size = some w ∧ n.IsLongest w behind ∧ parse w = some n.value ∧
          (∀ c ∈ w, c.isDigit = true ∨ c ∈ ['+', '-', '.']) ∧ w.count '.' ≤ 1) := by
  refine ⟨valueWith?_eq hparse a line, fun v => valueIn?_eq_some_iff, valueIn?_eq_none_iff, ?_⟩
  rintro before behind rfl
  refine ⟨a.onwards?_letter before behind, ?_⟩
  rcases end?_cases behind with ⟨hend, -, hform⟩ | ⟨n, w, hend, -, hlongest⟩
  · exact Or.inl ⟨hend, hform⟩
  · obtain ⟨rest, rfl⟩ := hlongest.starts
    exact Or.inr ⟨n, w, hend, Text.upTo?_append w rest, hlongest, hparse n w hlongest.form,
      fun c => hlongest.form.isNumeric, hlongest.form.count_point_le⟩

end Parse

/-- The numerals themselves know their values.  An exponent and a second point end a numeral, and a
numeral without a finite value is passed over like a letter without a numeral. -/
theorem word_grammar_ofNumerals :
    (∀ (n : Numeral) (w : Text), n.IsForm w → (leading? w).map value = some n.value) ∧
    Address.z.valueWith? (fun w => (leading? w).map value) "(Zé Z axis) Z-2.5.1e3 Z4".toList =
      some (some (.ofDecimal true 25 1)) ∧
    Address.z.IsFirstWord "(Zé Z axis) Z-2.5.1e3 Z4".toList (.ofDecimal true 25 1) ∧
    Address.z.NoWord "Z Z. Z--5 Z+.e1 z1 Z٣".toList := by
  have hparse : ∀ (n : Numeral) (w : Text), n.IsForm w → (leading? w).map value = some n.value :=
    fun n w h => h.map_value_leading?
  have hread : Address.z.valueIn? "(Zé Z axis) Z-2.5.1e3 Z4".toList =
      some (.ofDecimal true 25 1) := by decide +kernel
  have hnone : Address.z.valueIn? "Z Z. Z--5 Z+.e1 z1 Z٣".toList = none := by decide +kernel
  obtain ⟨hbytes, hfirst, -⟩ := word_grammar hparse .z "(Zé Z axis) Z-2.5.1e3 Z4".toList
  exact ⟨hparse, by rw [hbytes, hread], (hfirst _).mp hread,
    (word_grammar hparse .z "Z Z. Z--5 Z+.e1 z1 Z٣".toList).2.2.1.mp hnone⟩

end Address

end DrillCycles
