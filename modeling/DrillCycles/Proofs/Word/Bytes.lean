import DrillCycles.Proofs.Text.Bytes
import DrillCycles.Proofs.Word.Forms

/-!
# Words by their positions in the bytes

Numerals are delimited here by counting digits in bytes, and words are found at the positions of their
letter.  Both take parts of the text, which may fail.

* **`Numeral.end?`** is where the numeral at the start of a text ends.  `end?_cases` says that the text up
  to there is the longest form of a numeral, and the one that is read.
* **`valueWith?_eq`** says that every part can be taken, and that the words are those that
  `Address.valueIn?` reads, with any function for the text of a numeral that knows every form.
  `valueByBytes?_eq` and `readByBytes?_eq` are about the reading of numerals itself.
-/

namespace DrillCycles

variable {sign number whole digits rest : Text} {negative : Bool}

namespace Numeral

/-- Where the numeral without a sign ends that starts at a position, if there is one. -/
def endFrom? (t : Text) (start : ℕ) : Option (Option ℕ) := do
  let whole := Text.countDigits (← t.bytesOnwards? start)
  let point := t.bytes[start + whole]? = some '.'.toUInt8
  let fraction ←
    if point then (t.bytesOnwards? (start + whole + 1)).map Text.countDigits else some 0
  return if whole = 0 ∧ fraction = 0 then none
    else some (if point then start + whole + 1 + fraction else start + whole)

/-- How many bytes the sign at the start of a text takes. -/
def signSize (t : Text) : ℕ :=
  if t.bytes.head? = some '+'.toUInt8 ∨ t.bytes.head? = some '-'.toUInt8 then 1 else 0

/-- Where the numeral at the start of a text ends, if there is one. -/
def end? (t : Text) : Option (Option ℕ) :=
  endFrom? t (signSize t)

/-- The value of the numeral at the start of a text, if it is finite. -/
def leadingValueByBytes? (t : Text) : Option (Option Binary64) := do
  match ← end? t with
  | none => return none
  | some stop =>
    let written ← t.upTo? stop
    return leadingValue? written

/-- The value of the numeral at the start of a text, if it is finite, with a function that turns the text
of a numeral into a number. -/
def leadingValueWith? (parse : Text → Option Binary64) (t : Text) : Option (Option Binary64) := do
  match ← end? t with
  | none => return none
  | some stop =>
    let written ← t.upTo? stop
    return (parse written).filter Binary64.isFinite

end Numeral

/-- The value of the first word with this letter in a line. -/
def Address.valueByBytes? (a : Address) (line : Text) : Option (Option Binary64) :=
  (Text.offsets [a.letter] line).findSomeM? fun i => do
    let behind ← line.onwards? (i + 1)
    Numeral.leadingValueByBytes? behind

/-- The value of the first word with this letter in a line, with a function that turns the text of a
numeral into a number. -/
def Address.valueWith? (parse : Text → Option Binary64) (a : Address) (line : Text) :
    Option (Option Binary64) :=
  (Text.offsets [a.letter] line).findSomeM? fun i => do
    let behind ← line.onwards? (i + 1)
    Numeral.leadingValueWith? parse behind

/-- All words of a line. -/
def HoleWords.readByBytes? (line : Text) : Option HoleWords := do
  return {
    x := ← Address.x.valueByBytes? line
    y := ← Address.y.valueByBytes? line
    z := ← Address.z.valueByBytes? line
    r := ← Address.r.valueByBytes? line
    f := ← Address.f.valueByBytes? line
    p := ← Address.p.valueByBytes? line
    q := ← Address.q.valueByBytes? line }

namespace Numeral

/-! ### The end of a numeral -/

/-- Without a point the numeral ends with its digits. -/
lemma endFrom?_digits (sign : Text) (hwhole : ∀ c ∈ whole, c.isDigit = true)
    (hrest : NoFraction rest) : endFrom? (sign ++ (whole ++ rest)) sign.size =
      some (if whole = [] then none else some (sign ++ whole).size) := by
  have hcount : Text.countDigits (whole ++ rest : Text).bytes = whole.size := by
    rw [Text.countDigits_bytes, takeWhile_digits_append hwhole hrest.1]
  have hpoint : ¬ (sign ++ (whole ++ rest) : Text).bytes[sign.size + whole.size]? =
      some '.'.toUInt8 := by
    rw [← Text.size_append, ← List.append_assoc, Text.getElem?_bytes_append,
      Text.head?_bytes_eq_some_iff (by decide)]
    exact hrest.2
  simp [endFrom?, Text.bytesOnwards?_append, hcount, hpoint, Text.size_eq_zero_iff]

/-- With a point it ends with the digits behind the point. -/
lemma endFrom?_point (sign : Text) (hwhole : ∀ c ∈ whole, c.isDigit = true)
    (hdigits : ∀ c ∈ digits, c.isDigit = true) (hrest : NoDigit rest) :
    endFrom? (sign ++ (whole ++ '.' :: (digits ++ rest))) sign.size =
      some (if whole = [] ∧ digits = [] then none
        else some (sign ++ (whole ++ '.' :: digits)).size) := by
  have hcount : Text.countDigits (whole ++ '.' :: (digits ++ rest) : Text).bytes = whole.size := by
    rw [Text.countDigits_bytes, takeWhile_digits_append hwhole (by simp)]
  have hpoint : (sign ++ (whole ++ '.' :: (digits ++ rest)) : Text).bytes[sign.size + whole.size]? =
      some '.'.toUInt8 := by
    rw [← Text.size_append, ← List.append_assoc, Text.getElem?_bytes_append,
      Text.head?_bytes_eq_some_iff (by decide)]
    rfl
  have hone : '.'.utf8Size = 1 := by decide
  have hbehind : Text.bytesOnwards? (sign ++ (whole ++ '.' :: (digits ++ rest)))
      (sign.size + (whole.size + 1)) = some (digits ++ rest : Text).bytes := by
    have := Text.bytesOnwards?_append (sign ++ (whole ++ ['.'])) (digits ++ rest)
    simpa [hone, Nat.add_assoc] using this
  have hfraction : Text.countDigits (digits ++ rest : Text).bytes = digits.size := by
    rw [Text.countDigits_bytes, takeWhile_digits_append hdigits hrest]
  simp [endFrom?, Text.bytesOnwards?_append, hcount, hpoint, hbehind, hfraction, hone,
    Text.size_eq_zero_iff, Nat.add_assoc]

/-- **Reading behind a sign.**  Either nothing is read and no form is there, or the longest form is
read, and its end is found. -/
lemma leadingUnsigned?_cases (negative : Bool) (sign number : Text) :
    (endFrom? (sign ++ number) sign.size = some none ∧ leadingUnsigned? negative number = none ∧
      ∀ whole fraction w, IsUnsignedForm whole fraction w → ¬ w <+: number) ∨
    ∃ whole fraction w, endFrom? (sign ++ number) sign.size = some (some (sign ++ w).size) ∧
      leadingUnsigned? negative number = some ⟨negative, whole, fraction⟩ ∧
      IsUnsignedForm whole fraction w ∧ w <+: number ∧
      ∀ whole' fraction' w', IsUnsignedForm whole' fraction' w' → w' <+: number →
        w'.length ≤ w.length := by
  rcases exists_shape number with ⟨whole, rest, rfl, hwhole, hrest⟩ |
    ⟨whole, digits, rest, rfl, hwhole, hdigits, hrest⟩
  · rw [endFrom?_digits sign hwhole hrest, leadingUnsigned?_digits hwhole hrest]
    by_cases hempty : whole = []
    · refine Or.inl ⟨by rw [if_pos hempty], if_pos hempty, fun _ _ w h hw => h.ne_nil ?_⟩
      rw [hempty] at hw
      exact List.prefix_nil.mp (h.prefix_digits hrest hw)
    · refine Or.inr ⟨whole, [], whole, by rw [if_neg hempty], if_neg hempty, .digits hempty hwhole,
        List.prefix_append _ _, fun _ _ w h hw => ?_⟩
      exact (h.prefix_digits hrest hw).length_le
  · have hpoint : '.' ∈ whole ++ '.' :: digits := by simp
    have hassoc : whole ++ '.' :: (digits ++ rest) = (whole ++ '.' :: digits) ++ rest := by simp
    rw [endFrom?_point sign hwhole hdigits hrest, leadingUnsigned?_point hwhole hdigits hrest, hassoc]
    by_cases hempty : whole = [] ∧ digits = []
    · refine Or.inl ⟨by rw [if_pos hempty], if_pos hempty, fun _ _ w h hw => ?_⟩
      have hle := h.prefix_point hpoint hrest hw
      rw [hempty.1, hempty.2] at hle
      exact h.not_prefix_point hle
    · refine Or.inr ⟨whole, digits, whole ++ '.' :: digits, by rw [if_neg hempty], if_neg hempty, ?_,
        List.prefix_append _ _, fun _ _ w h hw => (h.prefix_point hpoint hrest hw).length_le⟩
      by_cases hnone : whole = []
      · subst hnone
        exact .leadingPoint (fun hdigits => hempty ⟨rfl, hdigits⟩) hdigits
      · exact .point hnone hwhole hdigits

lemma signSize_eq (t : Text) :
    signSize t = if t.head? = some '+' ∨ t.head? = some '-' then 1 else 0 := by
  simp only [signSize, Text.head?_bytes_eq_some_iff (a := '+') (by decide),
    Text.head?_bytes_eq_some_iff (a := '-') (by decide)]

lemma end?_of_sign (hsign : sign ∈ signs negative)
    (hfirst : sign = [] → number.head? ≠ some '+' ∧ number.head? ≠ some '-') :
    Numeral.end? (sign ++ number) = endFrom? (sign ++ number) sign.size := by
  rw [end?, signSize_eq]
  cases negative with
  | true =>
      rw [mem_signs_true.mp hsign]
      rfl
  | false =>
      rcases mem_signs_false.mp hsign with rfl | rfl
      · rw [if_neg (by simpa using hfirst rfl)]
        rfl
      · rfl

/-- **Reading at the start of a text.**  Either nothing is read and no form is there, or the longest
form is read, and its end is found. -/
theorem end?_cases (t : Text) :
    (end? t = some none ∧ leading? t = none ∧ NoForm t) ∨
    ∃ n w, end? t = some (some (Text.size w)) ∧ leading? t = some n ∧ n.IsLongest w t := by
  obtain ⟨negative, sign, hsign, number, rfl, hfirst⟩ := exists_signs t
  rw [end?_of_sign hsign hfirst, leading?_of_sign hsign hfirst]
  rcases leadingUnsigned?_cases negative sign number with ⟨hend, hnone, hform⟩ |
    ⟨whole, fraction, w, hend, hread, hform, hprefix, hlongest⟩
  · refine Or.inl ⟨hend, hnone, fun m other hother hstarts => ?_⟩
    obtain ⟨w', -, hw', hle⟩ := hother.of_sign hsign hfirst hstarts
    exact hform _ _ w' hw' hle
  · refine Or.inr ⟨⟨negative, whole, fraction⟩, sign ++ w, hend, hread,
      ⟨sign, hsign, w, rfl, hform⟩, (List.prefix_append_right_inj sign).mpr hprefix, ?_⟩
    intro m other hother hstarts
    obtain ⟨w', rfl, hw', hle⟩ := hother.of_sign hsign hfirst hstarts
    rw [List.length_append, List.length_append]
    exact Nat.add_le_add_left (hlongest _ _ w' hw' hle) _

end Numeral

/-! ### Words -/

lemma Address.size_letter (a : Address) : a.letter.utf8Size = 1 := by
  cases a <;> decide

/-- The text behind a letter can be taken. -/
lemma Address.onwards?_letter (a : Address) (before behind : Text) :
    Text.onwards? (before ++ a.letter :: behind) (before.size + 1) = some behind := by
  have hbehind := Text.onwards?_append (before ++ [a.letter]) behind
  rwa [Text.size_append, Text.size_cons, a.size_letter, List.append_assoc,
    List.singleton_append] at hbehind

section Parse

variable {parse : Text → Option Binary64}
variable (hparse : ∀ (n : Numeral) (w : Text), n.IsForm w → parse w = some n.value)

include hparse

/-- The text up to the end of the numeral can be taken, and it has the value that is read. -/
lemma Numeral.leadingValueWith?_eq (t : Text) :
    leadingValueWith? parse t = some (leadingValue? t) := by
  rcases end?_cases t with ⟨hend, hnone, -⟩ | ⟨n, w, hend, hread, hlongest⟩
  · rw [leadingValueWith?, hend, leadingValue?, hnone]
    rfl
  · obtain ⟨rest, rfl⟩ := hlongest.starts
    rw [leadingValueWith?, hend, leadingValue?, hread]
    simp only [Option.bind_eq_bind, Option.bind_some, Text.upTo?_append,
      hparse n w hlongest.form, Option.map_some, Option.pure_def]

lemma Address.findSomeM?_offsetsFrom (a : Address) (front t : Text) :
    (Text.offsetsFrom [a.letter] front.size 0 t).findSomeM? (fun i => do
      let behind ← (front ++ t).onwards? (i + 1)
      Numeral.leadingValueWith? parse behind) = some (a.valueIn? t) := by
  induction t generalizing front with
  | nil => rfl
  | cons c t ih =>
      have htail := ih (front ++ [c])
      rw [Text.size_append, List.append_assoc, List.singleton_append] at htail
      rw [Text.offsetsFrom, Address.valueIn?_cons]
      by_cases hletter : c = a.letter
      · subst hletter
        have hvalue := Numeral.leadingValueWith?_eq hparse t
        rw [if_pos (by simp), if_pos rfl, List.findSomeM?_cons, a.onwards?_letter]
        cases hread : Numeral.leadingValue? t with
        | some value => simp [hvalue, hread]
        | none => simpa [hvalue, hread] using htail
      · rw [if_neg (by simp [Ne.symm hletter]), if_neg hletter, Option.none_or]
        simpa using htail

/-- The text behind every letter can be taken, and the first word is the one that is read. -/
theorem Address.valueWith?_eq (a : Address) (line : Text) :
    a.valueWith? parse line = some (a.valueIn? line) :=
  a.findSomeM?_offsetsFrom hparse [] line

end Parse

/-- The reading of numerals knows every form. -/
lemma Numeral.IsForm.map_value_leading? {n : Numeral} {w : Text} (h : n.IsForm w) :
    (Numeral.leading? w).map Numeral.value = some n.value := by
  rw [h.leading?, Option.map_some]

theorem Address.valueByBytes?_eq (a : Address) (line : Text) :
    a.valueByBytes? line = some (a.valueIn? line) :=
  a.valueWith?_eq (fun _ _ h => h.map_value_leading?) line

theorem HoleWords.readByBytes?_eq (line : Text) :
    HoleWords.readByBytes? line = some (HoleWords.read line) := by
  simp only [HoleWords.readByBytes?, Address.valueByBytes?_eq]
  rfl

/-- Letters without a number in front of the word, one of them of two bytes. -/
example : Address.z.valueByBytes? "(Zé Z axis) Z-2".toList =
    some (some (Binary64.ofDecimal true 2 0)) := by
  decide +kernel

end DrillCycles
