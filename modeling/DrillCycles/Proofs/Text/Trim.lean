import DrillCycles.Text.Blank
import Mathlib.Data.List.DropRight

/-!
# Trimmed texts

`Text.trim` takes blanks away at the two ends only (`exists_eq_trim`), and what it leaves starts
and ends with no blank, so that trimming again changes nothing (`trim_trim`).  Conversely a text
without a blank at its ends is its own trimming (`trim_eq_self`): this is how a line that was written
by a program is recognised as trimmed.
-/

namespace DrillCycles

/-- A digit is no blank. -/
lemma not_isBlank_of_isDigit {c : Char} (h : c.isDigit = true) : isBlank c = false := by
  have hlow : 48 ≤ c.toNat := by
    simp only [Char.isDigit, Bool.and_eq_true, decide_eq_true_eq] at h
    exact h.1
  have hhigh : c.toNat ≤ 57 := by
    simp only [Char.isDigit, Bool.and_eq_true, decide_eq_true_eq] at h
    exact h.2
  simp only [isBlank, blankRanges, List.any_cons, List.any_nil, Bool.or_false, Bool.or_eq_false_iff,
    Bool.and_eq_false_iff, decide_eq_false_iff_not]
  omega

namespace Text

@[simp] lemma trim_nil : trim [] = [] := rfl

lemma trimEnd_eq_rdropWhile (t : Text) : trimEnd t = t.rdropWhile isBlank := rfl

/-- What is trimmed away is blank. -/
lemma exists_eq_trim (t : Text) : ∃ before after : Text, t = before ++ trim t ++ after ∧
    (∀ c ∈ before, isBlank c = true) ∧ ∀ c ∈ after, isBlank c = true := by
  refine ⟨t.takeWhile isBlank, (trimStart t).rtakeWhile isBlank, ?_,
    fun c hc => List.mem_takeWhile_imp hc, fun c hc => List.mem_rtakeWhile_imp hc⟩
  rw [List.append_assoc, trim, trimEnd_eq_rdropWhile, List.rdropWhile_append_rtakeWhile]
  exact List.takeWhile_append_dropWhile.symm

lemma trim_sublist (t : Text) : (trim t).Sublist t := by
  rw [trim, trimEnd_eq_rdropWhile]
  exact (List.rdropWhile_prefix _ _).sublist.trans (List.dropWhile_sublist _)

lemma length_trim_le (t : Text) : (trim t).length ≤ t.length :=
  (trim_sublist t).length_le

/-- A text that starts with no blank and ends with no blank is trimmed. -/
lemma trim_eq_self {t : Text} (first : ∀ c, t.head? = some c → isBlank c = false)
    (last : ∀ c, t.getLast? = some c → isBlank c = false) : trim t = t := by
  have hstart : trimStart t = t := by
    cases t with
    | nil => rfl
    | cons c t => simp [trimStart, first c rfl]
  rw [trim, hstart, trimEnd_eq_rdropWhile, List.rdropWhile_eq_self_iff]
  intro hne
  rw [last _ (List.getLast?_eq_some_getLast hne)]
  simp

/-- The first character of a trimmed text is no blank. -/
lemma not_isBlank_head_trim {t : Text} {c : Char} (h : (trim t).head? = some c) :
    isBlank c = false := by
  have hprefix : trim t <+: trimStart t := List.rdropWhile_prefix _ _
  obtain ⟨rest, hrest⟩ := hprefix
  have hhead : (t.dropWhile isBlank).head? = some c := by
    change (trimStart t).head? = some c
    rw [← hrest, List.head?_append, h, Option.some_or]
  have := List.head?_dropWhile_not isBlank t
  simpa [hhead] using this

/-- The last character of a trimmed text is no blank. -/
lemma not_isBlank_getLast_trim {t : Text} {c : Char} (h : (trim t).getLast? = some c) :
    isBlank c = false := by
  have hne : trim t ≠ [] := by
    intro hnil
    simp [hnil] at h
  have hlast := List.rdropWhile_last_not isBlank (trimStart t) hne
  rw [List.getLast?_eq_some_getLast hne, Option.some.injEq] at h
  rw [← h]
  exact Bool.eq_false_iff.mpr hlast

@[simp] lemma trim_trim (t : Text) : trim (trim t) = trim t :=
  trim_eq_self (fun _ => not_isBlank_head_trim) (fun _ => not_isBlank_getLast_trim)

end Text

end DrillCycles
