import DrillCycles.Word
import Mathlib.Data.List.TakeWhile

/-!
# Words in joined texts

A numeral is read as far as it goes, so the words of a text that is put together from two parts are
the words of the parts, unless a numeral at the end of the first part goes on in the second one.

* **`Numeral.IsOpening`** is the beginning of a numeral: every text that more digits could turn into one.
* **`Address.Lengthens`** says that a word at the end of a text goes on in the next text.
* **`Address.valueIn?_append`** reads the two parts one after the other when it does not.
-/

namespace DrillCycles

variable {t left right rest whole digits : Text} {c next : Char} {negative : Bool}

namespace Numeral

/-! ### The shape of what is read -/

/-- No digit stands at the start of the text. -/
def NoDigit (t : Text) : Prop :=
  ∀ c, t.head? = some c → c.isDigit = false

/-- No digit and no point stands at the start of the text. -/
def NoFraction (t : Text) : Prop :=
  NoDigit t ∧ t.head? ≠ some '.'

lemma noDigit_nil : NoDigit [] := by simp [NoDigit]

lemma noFraction_nil : NoFraction [] := ⟨noDigit_nil, by simp⟩

@[simp] lemma noDigit_cons : NoDigit (c :: t) ↔ c.isDigit = false := by simp [NoDigit]

@[simp] lemma noFraction_cons : NoFraction (c :: t) ↔ c.isDigit = false ∧ c ≠ '.' := by
  simp [NoFraction]

lemma takeWhile_digits_append (hwhole : ∀ c ∈ whole, c.isDigit = true) (hrest : NoDigit rest) :
    (whole ++ rest).takeWhile Char.isDigit = whole := by
  rw [List.takeWhile_append_of_pos hwhole]
  cases rest with
  | nil => simp
  | cons c rest => simp [noDigit_cons.mp hrest]

lemma dropWhile_digits_append (hwhole : ∀ c ∈ whole, c.isDigit = true) (hrest : NoDigit rest) :
    (whole ++ rest).dropWhile Char.isDigit = rest := by
  rw [List.dropWhile_append_of_pos hwhole]
  cases rest with
  | nil => simp
  | cons c rest => simp [noDigit_cons.mp hrest]

/-- Digits alone are read up to what follows them. -/
lemma leadingUnsigned?_digits (hwhole : ∀ c ∈ whole, c.isDigit = true) (hrest : NoFraction rest) :
    leadingUnsigned? negative (whole ++ rest) =
      if whole = [] then none else some ⟨negative, whole, []⟩ := by
  rw [leadingUnsigned?, takeWhile_digits_append hwhole hrest.1,
    dropWhile_digits_append hwhole hrest.1]
  cases rest with
  | nil => simp
  | cons c rest => simp [(noFraction_cons.mp hrest).2]

/-- With a point they are read up to what follows the digits behind it. -/
lemma leadingUnsigned?_point (hwhole : ∀ c ∈ whole, c.isDigit = true)
    (hdigits : ∀ c ∈ digits, c.isDigit = true) (hrest : NoDigit rest) :
    leadingUnsigned? negative (whole ++ '.' :: (digits ++ rest)) =
      if whole = [] ∧ digits = [] then none else some ⟨negative, whole, digits⟩ := by
  have hpoint : NoDigit ('.' :: (digits ++ rest)) := by simp
  rw [leadingUnsigned?, takeWhile_digits_append hwhole hpoint,
    dropWhile_digits_append hwhole hpoint]
  simp [takeWhile_digits_append hdigits hrest]

/-- Every text has one of the two shapes. -/
lemma exists_shape (t : Text) :
    (∃ whole rest : Text, t = whole ++ rest ∧ (∀ c ∈ whole, c.isDigit = true) ∧ NoFraction rest) ∨
    ∃ whole digits rest : Text, t = whole ++ '.' :: (digits ++ rest) ∧
      (∀ c ∈ whole, c.isDigit = true) ∧ (∀ c ∈ digits, c.isDigit = true) ∧ NoDigit rest := by
  have htake : ∀ s : Text, ∀ c ∈ s.takeWhile Char.isDigit, c.isDigit = true :=
    fun s c hc => List.mem_takeWhile_imp hc
  have hdrop : ∀ s : Text, NoDigit (s.dropWhile Char.isDigit) := by
    intro s c hc
    have := List.head?_dropWhile_not Char.isDigit s
    simpa [hc] using this
  by_cases hpoint : (t.dropWhile Char.isDigit).head? = some '.'
  · obtain ⟨tail, htail⟩ := List.head?_eq_some_iff.mp hpoint
    refine Or.inr ⟨_, _, _, ?_, htake t, htake tail, hdrop tail⟩
    rw [List.takeWhile_append_dropWhile, ← htail, List.takeWhile_append_dropWhile]
  · exact Or.inl ⟨_, _, List.takeWhile_append_dropWhile.symm, htake t, hdrop t, hpoint⟩

/-! ### The beginning of a numeral -/

/-- Digits, and perhaps a point with more digits. -/
def IsUnsignedOpening (t : Text) : Prop :=
  ∃ whole fraction : Text, t = whole ++ fraction ∧ (∀ c ∈ whole, c.isDigit = true) ∧
    (fraction = [] ∨ ∃ digits : Text, fraction = '.' :: digits ∧ ∀ c ∈ digits, c.isDigit = true)

/-- A text that a numeral may begin with. -/
def IsOpening (t : Text) : Prop :=
  ∃ sign number : Text, t = sign ++ number ∧ sign ∈ [[], ['+'], ['-']] ∧ IsUnsignedOpening number

lemma isUnsignedOpening_digits (h : ∀ c ∈ t, c.isDigit = true) : IsUnsignedOpening t :=
  ⟨t, [], by simp, h, Or.inl rfl⟩

lemma isUnsignedOpening_point (hwhole : ∀ c ∈ whole, c.isDigit = true)
    (hdigits : ∀ c ∈ digits, c.isDigit = true) : IsUnsignedOpening (whole ++ '.' :: digits) :=
  ⟨whole, _, rfl, hwhole, Or.inr ⟨digits, rfl, hdigits⟩⟩

/-- The characters of numerals. -/
def IsNumeric (c : Char) : Prop :=
  c.isDigit = true ∨ c ∈ ['+', '-', '.']

lemma IsOpening.isNumeric (h : IsOpening t) (hc : c ∈ t) : IsNumeric c := by
  obtain ⟨sign, number, rfl, hsign, whole, fraction, rfl, hwhole, hfraction⟩ := h
  rcases List.mem_append.mp hc with hc | hc
  · simp only [List.mem_cons, List.not_mem_nil, or_false] at hsign
    rcases hsign with rfl | rfl | rfl
    · simp at hc
    · exact Or.inr (by simp_all)
    · exact Or.inr (by simp_all)
  rcases List.mem_append.mp hc with hc | hc
  · exact Or.inl (hwhole c hc)
  rcases hfraction with rfl | ⟨digits, rfl, hdigits⟩
  · simp at hc
  rcases List.mem_cons.mp hc with rfl | hc
  · exact Or.inr (by simp)
  · exact Or.inl (hdigits c hc)

lemma all_isDigit_concat (hwhole : ∀ c ∈ whole, c.isDigit = true) (hnext : next.isDigit = true) :
    ∀ c ∈ whole ++ [next], c.isDigit = true := by
  intro c hc
  rcases List.mem_append.mp hc with hc | hc
  · exact hwhole c hc
  · rw [List.mem_singleton.mp hc, hnext]

/-- A character that does not lengthen the beginning of a numeral does not change what is read. -/
lemma leadingUnsigned?_append (h : ¬ IsUnsignedOpening (t ++ [next])) (rest : Text) :
    leadingUnsigned? negative (t ++ next :: rest) = leadingUnsigned? negative t := by
  rcases exists_shape t with ⟨whole, tail, rfl, hwhole, htail⟩ |
    ⟨whole, digits, tail, rfl, hwhole, hdigits, htail⟩
  · have hlonger : NoFraction (tail ++ next :: rest) := by
      cases tail with
      | nil =>
          refine noFraction_cons.mpr ⟨?_, ?_⟩
          · by_contra hnext
            exact h (isUnsignedOpening_digits (by
              simpa using all_isDigit_concat hwhole (by simpa using hnext)))
          · rintro rfl
            have hnone : ∀ c ∈ ([] : Text), c.isDigit = true := by simp
            exact h (by simpa using isUnsignedOpening_point hwhole hnone)
      | cons c tail => exact noFraction_cons.mpr (noFraction_cons.mp htail)
    rw [List.append_assoc, leadingUnsigned?_digits hwhole hlonger,
      leadingUnsigned?_digits hwhole htail]
  · have hlonger : NoDigit (tail ++ next :: rest) := by
      cases tail with
      | nil =>
          refine noDigit_cons.mpr ?_
          by_contra hnext
          refine h ?_
          simpa using isUnsignedOpening_point hwhole
            (all_isDigit_concat hdigits (by simpa using hnext))
      | cons c tail => exact noDigit_cons.mpr (noDigit_cons.mp htail)
    have hassoc : (whole ++ '.' :: (digits ++ tail)) ++ next :: rest =
        whole ++ '.' :: (digits ++ (tail ++ next :: rest)) := by simp
    rw [hassoc, leadingUnsigned?_point hwhole hdigits hlonger,
      leadingUnsigned?_point hwhole hdigits htail]

lemma leading?_of_not_sign (hminus : t.head? ≠ some '-') (hplus : t.head? ≠ some '+') :
    leading? t = leadingUnsigned? false t := by
  unfold leading?
  split
  · simp at hminus
  · simp at hplus
  · rfl

lemma leading?_append (h : ¬ IsOpening (t ++ [next])) (rest : Text) :
    leading? (t ++ next :: rest) = leading? t := by
  have hunsigned : ¬ IsUnsignedOpening (t ++ [next]) := fun hopening =>
    h ⟨[], _, rfl, by simp, hopening⟩
  by_cases hminus : t.head? = some '-'
  · obtain ⟨number, rfl⟩ := List.head?_eq_some_iff.mp hminus
    exact leadingUnsigned?_append (fun hopening => h ⟨['-'], _, rfl, by simp, hopening⟩) rest
  by_cases hplus : t.head? = some '+'
  · obtain ⟨number, rfl⟩ := List.head?_eq_some_iff.mp hplus
    exact leadingUnsigned?_append (fun hopening => h ⟨['+'], _, rfl, by simp, hopening⟩) rest
  have hsign : (t ++ next :: rest).head? ≠ some '-' ∧ (t ++ next :: rest).head? ≠ some '+' := by
    cases t with
    | nil =>
        refine ⟨?_, ?_⟩ <;> rintro hnext <;> obtain rfl := Option.some.inj hnext
        · exact h ⟨['-'], [], rfl, by simp, isUnsignedOpening_digits (by simp)⟩
        · exact h ⟨['+'], [], rfl, by simp, isUnsignedOpening_digits (by simp)⟩
    | cons c t => exact ⟨hminus, hplus⟩
  rw [leading?_of_not_sign hsign.1 hsign.2, leading?_of_not_sign hminus hplus,
    leadingUnsigned?_append hunsigned rest]

end Numeral

namespace Address

variable {a : Address}

/-- A word with this letter at the end of the left text goes on at the start of the right one. -/
def Lengthens (a : Address) (left right : Text) : Prop :=
  ∃ (before number : Text) (next : Char) (rest : Text), left = before ++ a.letter :: number ∧
    right = next :: rest ∧ Numeral.IsOpening (number ++ [next])

/-- Nothing but a numeric character lengthens a word. -/
lemma Lengthens.isNumeric (h : a.Lengthens left (next :: rest)) : Numeral.IsNumeric next := by
  obtain ⟨before, number, _, _, -, hright, hopening⟩ := h
  obtain ⟨rfl, rfl⟩ := List.cons.inj hright
  exact hopening.isNumeric (by simp)

lemma Lengthens.append_left (before : Text) (h : a.Lengthens left right) :
    a.Lengthens (before ++ left) right := by
  obtain ⟨front, number, next, rest, rfl, hright, hopening⟩ := h
  exact ⟨before ++ front, number, next, rest, by simp, hright, hopening⟩

lemma valueIn?_cons (a : Address) (c : Char) (t : Text) : a.valueIn? (c :: t) =
    (if c = a.letter then Numeral.leadingValue? t else none).or (a.valueIn? t) := by
  rw [valueIn?]
  cases (if c = a.letter then Numeral.leadingValue? t else none) <;> rfl

lemma valueIn?_cons_of_ne (h : c ≠ a.letter) (t : Text) : a.valueIn? (c :: t) = a.valueIn? t := by
  rw [valueIn?_cons, if_neg h, Option.none_or]

/-- Text without the letter in front of other text is passed over. -/
lemma valueIn?_append_of_not_mem (h : a.letter ∉ left) (right : Text) :
    a.valueIn? (left ++ right) = a.valueIn? right := by
  induction left with
  | nil => rfl
  | cons c left ih =>
      rw [List.mem_cons, not_or] at h
      rw [List.cons_append, valueIn?_cons_of_ne (Ne.symm h.1), ih h.2]

lemma valueIn?_of_not_mem (h : a.letter ∉ t) : a.valueIn? t = none := by
  rw [← List.append_nil t, valueIn?_append_of_not_mem h]
  rfl

/-- **Words of joined texts.**  If no word goes on, those of the left text come first. -/
theorem valueIn?_append (h : ¬ a.Lengthens left right) :
    a.valueIn? (left ++ right) = (a.valueIn? left).or (a.valueIn? right) := by
  induction left with
  | nil => rfl
  | cons c left ih =>
      have htail : ¬ a.Lengthens left right := fun hlengthens => h (hlengthens.append_left [c])
      rw [List.cons_append, valueIn?_cons, valueIn?_cons, ih htail, Option.or_assoc]
      congr 1
      by_cases hletter : c = a.letter
      · have hread : Numeral.leading? (left ++ right) = Numeral.leading? left := by
          cases right with
          | nil => rw [List.append_nil]
          | cons next rest =>
              refine Numeral.leading?_append (fun hopening => h ?_) rest
              exact ⟨[], left, next, rest, by rw [hletter]; rfl, rfl, hopening⟩
        rw [if_pos hletter, if_pos hletter, Numeral.leadingValue?, Numeral.leadingValue?, hread]
      · rw [if_neg hletter, if_neg hletter]

end Address

end DrillCycles
