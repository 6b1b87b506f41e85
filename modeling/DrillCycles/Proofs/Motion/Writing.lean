import DrillCycles.Motion
import DrillCycles.Proofs.Text.Trim
import Mathlib.Tactic.Common

/-!
# Written moves

Rendering can fail, but only for one reason and never in the middle: this module separates *what* is
written from *whether* it can be written.

* **`Binary64.written`**, **`Motion.written`** are the texts themselves.
* **`Binary64.numeral_eq`**, **`Motion.render_eq`** say that rendering gives exactly these texts, unless
  a number has to be written with a precision that cannot be served.
* **`Binary64.isNumeralChar_of_mem_written`** lists the characters of a number, whatever the number is.
* **`Motion.trim_written`**, **`Motion.not_mem_tail_written`** say what follows for the line of a move: it
  is trimmed, and it holds one code.
-/

namespace DrillCycles

/-- A traversal in which each step either gives a value or fails in the same way. -/
lemma mapM_ite_ok {α β ε : Type} (l : List α) (ok : α → Bool) (g : α → β) (e : ε) :
    l.mapM (fun a => if ok a then Except.ok (g a) else .error e) =
      if l.all ok then .ok (l.map g) else .error e := by
  induction l with
  | nil => rfl
  | cons a l ih =>
      rw [List.mapM_cons, ih, List.all_cons, List.map_cons]
      cases ok a <;> cases l.all ok <;> rfl

namespace Binary64

variable {precision : Option Nat}

/-- The text of a number, where it can be written. -/
def written (precision : Option Nat) : Binary64 → Text
  | .finite negative rank => signedDecimal negative (decimal precision rank)
  | x => x.text

lemma numeral_eq (precision : Option Nat) (x : Binary64) : x.numeral precision =
    if servable precision then .ok (x.written precision) else .error .precisionOutOfRange := by
  cases x <;> rfl

/-! ### The characters of a number -/

/-- The characters that numbers are written with. -/
def IsNumeralChar (c : Char) : Prop :=
  c.isDigit = true ∨ c ∈ ['-', '.', 'i', 'n', 'f', 'N', 'a']

lemma IsNumeralChar.not_isBlank {c : Char} (h : IsNumeralChar c) : isBlank c = false := by
  rcases h with h | h
  · exact not_isBlank_of_isDigit h
  · simp only [List.mem_cons, List.not_mem_nil, or_false] at h
    rcases h with rfl | rfl | rfl | rfl | rfl | rfl | rfl <;> decide

lemma IsNumeralChar.ne_code {c : Char} (h : IsNumeralChar c) : c ≠ 'G' := by
  rintro rfl
  rcases h with h | h <;> simp at h

lemma isNumeralChar_of_mem_ofNat {n : Nat} {c : Char} (h : c ∈ Text.ofNat n) : IsNumeralChar c :=
  Or.inl (Nat.isDigit_of_mem_toDigits (by decide) (by decide) h)

lemma isNumeralChar_of_mem_text {d : Decimal} {c : Char} (h : c ∈ d.text) : IsNumeralChar c := by
  rw [Decimal.text, Decimal.paddedText] at h
  split at h
  · exact isNumeralChar_of_mem_ofNat h
  · rcases List.mem_append.mp h with h | h
    · exact isNumeralChar_of_mem_ofNat h
    rcases List.mem_cons.mp h with rfl | h
    · exact Or.inr (by decide)
    rcases List.mem_append.mp h with h | h
    · rw [List.eq_of_mem_replicate h]
      exact Or.inl rfl
    · exact isNumeralChar_of_mem_ofNat h

lemma isNumeralChar_of_mem_signed {negative : Bool} {t : Text} {c : Char}
    (ht : ∀ c ∈ t, IsNumeralChar c) (h : c ∈ signed negative t) : IsNumeralChar c := by
  rw [signed] at h
  split at h
  · rcases List.mem_cons.mp h with rfl | h
    · exact Or.inr (by decide)
    · exact ht c h
  · exact ht c h

/-- A number is written with digits, a sign, a point, and letters of the names of the others. -/
theorem isNumeralChar_of_mem_written {x : Binary64} {c : Char} (h : c ∈ x.written precision) :
    IsNumeralChar c := by
  cases x with
  | nan =>
      have hname : c ∈ ['N', 'a', 'N'] := h
      simp only [List.mem_cons, List.not_mem_nil, or_false] at hname
      rcases hname with rfl | rfl | rfl <;> exact Or.inr (by decide)
  | infinite negative =>
      refine isNumeralChar_of_mem_signed (fun d hd => ?_) h
      simp only [List.mem_cons, List.not_mem_nil, or_false] at hd
      rcases hd with rfl | rfl | rfl <;> exact Or.inr (by decide)
  | finite negative rank =>
      exact isNumeralChar_of_mem_signed (fun d hd => isNumeralChar_of_mem_text hd) h

end Binary64

namespace Motion

variable {precision : Option Nat} {m : Motion}

/-- A word as it stands in a line. -/
def writtenWord (precision : Option Nat) (word : Char × Binary64) : Text :=
  ' ' :: word.1 :: word.2.written precision

/-- The line of a move, where it can be written. -/
def written (precision : Option Nat) (m : Motion) : Text :=
  m.kind.code ++ m.words.flatMap (writtenWord precision)

lemma renderWord_eq (precision : Option Nat) (word : Char × Binary64) : renderWord precision word =
    if Binary64.servable precision then .ok (writtenWord precision word)
    else .error .precisionOutOfRange := by
  rw [renderWord, Binary64.numeral_eq]
  split <;> rfl

/-- A move is written unless it has a number that cannot be. -/
theorem render_eq (precision : Option Nat) (m : Motion) : m.render precision =
    if Binary64.servable precision || m.isBare then .ok (m.written precision)
    else .error .precisionOutOfRange := by
  have hwords := mapM_ite_ok m.words (fun _ => Binary64.servable precision)
    (writtenWord precision) RenderError.precisionOutOfRange
  rw [render, funext (renderWord_eq precision), hwords, written, isBare, List.flatMap_def]
  cases m.words <;> cases Binary64.servable precision <;>
    simp [pure, Except.pure, bind, Except.bind]

/-! ### The characters of a line -/

/-- The letters of generated words. -/
def wordLetters : List Char := ['X', 'Y', 'Z', 'F', 'S', 'P']

/-- A move whose words all have letters of generated words. -/
def IsLettered (m : Motion) : Prop :=
  ∀ word ∈ m.words, word.1 ∈ wordLetters

/-- The words of a move are those that have a value. -/
lemma mem_words_iff {kind : MoveKind} {words : List (Char × Option Binary64)}
    {word : Char × Binary64} :
    word ∈ (Motion.of kind words).words ↔ (word.1, some word.2) ∈ words := by
  rw [Motion.of, List.mem_filterMap]
  constructor
  · rintro ⟨⟨letter, value⟩, hmem, hword⟩
    obtain ⟨number, rfl, rfl⟩ := Option.map_eq_some_iff.mp hword
    exact hmem
  · intro hmem
    exact ⟨_, hmem, rfl⟩

lemma exists_of_mem_words {kind : MoveKind} {words : List (Char × Option Binary64)}
    {word : Char × Binary64} (h : word ∈ (Motion.of kind words).words) :
    ∃ value, (word.1, value) ∈ words :=
  ⟨_, mem_words_iff.mp h⟩

lemma isLettered_of {kind : MoveKind} {words : List (Char × Option Binary64)}
    (h : ∀ word ∈ words, word.1 ∈ wordLetters) : (Motion.of kind words).IsLettered := by
  intro word hword
  obtain ⟨value, hmem⟩ := exists_of_mem_words hword
  exact h _ hmem

lemma not_isBlank_of_mem_wordLetters {c : Char} (h : c ∈ wordLetters) : isBlank c = false := by
  simp only [wordLetters, List.mem_cons, List.not_mem_nil, or_false] at h
  rcases h with rfl | rfl | rfl | rfl | rfl | rfl <;> decide

lemma not_isBlank_of_mem_code {kind : MoveKind} {c : Char} (h : c ∈ kind.code) :
    isBlank c = false := by
  cases kind <;> simp only [MoveKind.code, List.mem_cons, List.not_mem_nil, or_false] at h <;>
    rcases h with rfl | rfl <;> decide

/-- Behind the space of a word there is no blank. -/
lemma not_isBlank_of_mem_word {word : Char × Binary64} {c : Char} (hletter : word.1 ∈ wordLetters)
    (h : c ∈ word.1 :: word.2.written precision) : isBlank c = false := by
  rcases List.mem_cons.mp h with rfl | h
  · exact not_isBlank_of_mem_wordLetters hletter
  · exact (Binary64.isNumeralChar_of_mem_written h).not_isBlank

/-- The line of a move starts and ends with no blank. -/
theorem trim_written (h : m.IsLettered) : (m.written precision).trim = m.written precision := by
  refine Text.trim_eq_self ?_ ?_
  · intro c hc
    obtain rfl : 'G' = c := by
      cases hkind : m.kind <;> simpa [written, hkind, MoveKind.code] using hc
    decide
  · intro c hc
    rw [written] at hc
    induction hwords : m.words using List.reverseRecOn with
    | nil =>
        rw [hwords, List.flatMap_nil, List.append_nil] at hc
        exact not_isBlank_of_mem_code (List.mem_of_getLast? hc)
    | append_singleton words word _ =>
        have hletter : word.1 ∈ wordLetters := h word (by simp [hwords])
        rw [hwords, List.flatMap_append, ← List.append_assoc, List.flatMap_singleton, writtenWord,
          List.getLast?_append_cons, List.getLast?_cons_cons] at hc
        exact not_isBlank_of_mem_word hletter (List.mem_of_getLast? hc)

/-- A line holds the letter of a code at its start only. -/
theorem not_mem_tail_written (h : m.IsLettered) : 'G' ∉ (m.written precision).tail := by
  intro hmem
  have hsplit : (m.written precision).tail =
      m.kind.code.tail ++ m.words.flatMap (writtenWord precision) := by
    cases hkind : m.kind <;> simp [written, hkind, MoveKind.code]
  rw [hsplit] at hmem
  rcases List.mem_append.mp hmem with hcode | hwords
  · revert hcode
    cases m.kind <;> decide
  · obtain ⟨word, hword, hc⟩ := List.mem_flatMap.mp hwords
    rw [writtenWord, List.mem_cons, List.mem_cons] at hc
    rcases hc with hspace | hletter | hnumber
    · exact absurd hspace (by decide)
    · have := h word hword
      rw [← hletter] at this
      exact absurd this (by decide)
    · exact (Binary64.isNumeralChar_of_mem_written hnumber).ne_code rfl

lemma not_mem_newline_written (h : m.IsLettered) : '\n' ∉ m.written precision := by
  intro hmem
  rw [written] at hmem
  rcases List.mem_append.mp hmem with hcode | hwords
  · exact absurd (not_isBlank_of_mem_code hcode) (by decide)
  · obtain ⟨word, hword, hc⟩ := List.mem_flatMap.mp hwords
    rcases List.mem_cons.mp hc with hspace | hc
    · exact absurd hspace (by decide)
    · exact absurd (not_isBlank_of_mem_word (h word hword) hc) (by decide)

end Motion

end DrillCycles
