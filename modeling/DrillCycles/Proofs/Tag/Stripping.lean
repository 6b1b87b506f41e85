import DrillCycles.Proofs.Tag.Seam
import DrillCycles.Proofs.Word.Scanning

/-!
# What stripping leaves

A stripped line should hold no candidate, and the same words as before.  Both hold as long as nothing
comes together at a seam: no code of a candidate (`find?_eq_none_of_not_forms`), and no word that goes
on behind the seam (`valueIn?_strip`).  `strip_clean` puts these together, and `strip_not_clean` shows
that both things happen.
-/

namespace DrillCycles.Tag

variable {tag : Tag} {candidates : List Tag} {line t left right : Text} {a : Address}

/-! ### Words in a stripped line -/

lemma letter_not_mem_code (a : Address) (tag : Tag) : a.letter ∉ tag.code := by
  cases a <;> cases tag <;> decide

lemma letter_not_isBlank (a : Address) : isBlank a.letter = false := by
  cases a <;> decide

/-- No word goes on into a code. -/
lemma not_lengthens_code (a : Address) (tag : Tag) (left after : Text) :
    ¬ a.Lengthens left (tag.code ++ after) := by
  obtain ⟨rest, hrest⟩ : ∃ rest, tag.code ++ after = 'G' :: rest := by
    cases tag <;> exact ⟨_, rfl⟩
  rw [hrest]
  intro hlengthens
  exact absurd hlengthens.isNumeric (by simp [Numeral.IsNumeric])

lemma valueIn?_withoutSpace (a : Address) (t : Text) :
    a.valueIn? (withoutSpace t) = a.valueIn? t := by
  unfold withoutSpace
  split
  · have hspace : ' ' ≠ a.letter := by cases a <;> decide
    rw [Address.valueIn?_cons_of_ne hspace]
  · rfl

lemma Cut.fragments_ne_nil {fragments : List Text} (h : Cut tag t fragments) : fragments ≠ [] := by
  cases h <;> simp

/-- One removal changes no word that does not go on behind a seam. -/
lemma valueIn?_remove (h : ∀ left right, Seam tag t left right → ¬ a.Lengthens left right) :
    a.valueIn? (tag.remove t) = a.valueIn? t := by
  obtain ⟨fragments, hcut, hflat⟩ := exists_cut tag t
  have hseams : ∀ before after : List Text, fragments = before ++ after → before ≠ [] →
      after ≠ [] → ¬ a.Lengthens before.flatten after.flatten := by
    rintro before after rfl hbefore hafter
    exact h _ _ ⟨before, after, hcut, hbefore, hafter, rfl, rfl⟩
  rw [hflat]
  clear h hflat
  induction hcut with
  | whole => simp
  | @next first after fragments hfirst hends hrest ih =>
      -- A seam between later fragments is one of the whole text, with the first fragment in front.
      have hinner := ih fun before behind hsplit hbefore hbehind hlengthens =>
        hseams (first :: before) behind (by rw [hsplit]; rfl) (List.cons_ne_nil _ _) hbehind
          (hlengthens.append_left first)
      have hseam : ¬ a.Lengthens first fragments.flatten := by
        intro hlengthens
        refine hseams [first] fragments rfl (List.cons_ne_nil _ _) ?_ (by simpa using hlengthens)
        exact hrest.fragments_ne_nil
      have hcode : a.valueIn? (tag.code ++ after) = a.valueIn? after := by
        rw [Address.valueIn?_append_of_not_mem (letter_not_mem_code a tag)]
      rw [List.flatten_cons, Address.valueIn?_append hseam, hinner, valueIn?_withoutSpace,
        List.append_assoc, Address.valueIn?_append (not_lengthens_code a tag first after), hcode]

lemma valueIn?_foldl_remove
    (h : ∀ later left right, StripSeam candidates t later left right → ¬ a.Lengthens left right) :
    a.valueIn? (candidates.foldl (fun t tag => tag.remove t) t) = a.valueIn? t := by
  induction candidates generalizing t with
  | nil => rfl
  | cons tag candidates ih =>
      rw [List.foldl_cons, ih fun later left right hseam => h later left right hseam.cons,
        valueIn?_remove fun left right hseam => h _ left right (stripSeam_cons_of_seam hseam)]

lemma valueIn?_trim (a : Address) (t : Text) : a.valueIn? t.trim = a.valueIn? t := by
  obtain ⟨before, after, ht, hbefore, hafter⟩ := Text.exists_eq_trim t
  have hnot : ∀ s : Text, (∀ c ∈ s, isBlank c = true) → a.letter ∉ s := by
    intro s hblank hmem
    exact absurd (hblank _ hmem) (by simp [letter_not_isBlank a])
  have hseam : ¬ a.Lengthens t.trim after := by
    rintro hlengthens
    cases after with
    | nil => obtain ⟨_, _, _, _, -, hright, -⟩ := hlengthens; cases hright
    | cons c after =>
        have hblank := hafter c List.mem_cons_self
        rcases hlengthens.isNumeric with hdigit | hother
        · rw [not_isBlank_of_isDigit hdigit] at hblank
          exact Bool.false_ne_true hblank
        · simp only [List.mem_cons, List.not_mem_nil, or_false] at hother
          rcases hother with rfl | rfl | rfl <;> revert hblank <;> decide
  conv_rhs => rw [ht, List.append_assoc]
  rw [Address.valueIn?_append_of_not_mem (hnot before hbefore), Address.valueIn?_append hseam,
    Address.valueIn?_of_not_mem (hnot after hafter), Option.or_none]

/-- A word of a stripped line is that of the line, if no word with its letter goes on at a seam. -/
theorem valueIn?_strip
    (h : ∀ later left right, StripSeam candidates line later left right →
      ¬ a.Lengthens left right) :
    a.valueIn? (strip candidates line) = a.valueIn? line := by
  rw [strip, valueIn?_trim, valueIn?_foldl_remove h]

/-! ### Stripped lines -/

lemma Forms.occursIn (h : tag.Forms left right) : tag.OccursIn (left ++ right) := by
  obtain ⟨front, back, before, after, hcode, -, -, rfl, rfl, hends⟩ := h
  exact ⟨_, before, after, by simp [hcode], rfl, hends⟩

/-- At a seam what is left is cut in two. -/
lemma Seam.eq_remove (h : Seam tag t left right) : tag.remove t = left ++ right := by
  obtain ⟨before, after, hcut, -, -, rfl, rfl⟩ := h
  obtain ⟨fragments, hcut', hflat⟩ := exists_cut tag t
  rw [hflat, hcut'.unique hcut, List.flatten_append]

lemma find?_eq_none_of_not_forms
    (h : ∀ later left right, StripSeam candidates line later left right →
      ∀ tag ∈ candidates, tag ∉ later → ¬ tag.Forms left right) :
    find? candidates (strip candidates line) = none := by
  refine find?_eq_none_iff.mpr ?_
  rintro ⟨tag, hmem, hocc⟩
  obtain ⟨later, left, right, hseam, hlater, hforms⟩ := forms_of_occursIn_strip hmem hocc
  exact h later left right hseam tag hmem hlater hforms

lemma strip_strip_of_find?_eq_none (h : find? candidates (strip candidates line) = none) :
    strip candidates (strip candidates line) = strip candidates line := by
  rw [strip_of_not_anyIn (find?_eq_none_iff.mp h), strip, Text.trim_trim]

/-- **What stripping leaves.**  If no candidate comes together at a seam, from its own removal onwards,
the stripped line holds none and stripping it again changes nothing; for a single candidate the
condition is exact.  If no word with a letter goes on at a seam, stripping does not change the word
with this letter. -/
theorem strip_clean (candidates : List Tag) (line : Text) :
    ((∀ later left right, StripSeam candidates line later left right →
        ∀ tag ∈ candidates, tag ∉ later → ¬ tag.Forms left right) →
      find? candidates (strip candidates line) = none ∧
        strip candidates (strip candidates line) = strip candidates line) ∧
    (∀ tag, find? [tag] (strip [tag] line) = none ↔
      ∀ left right, Seam tag line left right → ¬ tag.Forms left right) ∧
    ∀ a : Address,
      (∀ later left right, StripSeam candidates line later left right → ¬ a.Lengthens left right) →
      a.valueIn? (strip candidates line) = a.valueIn? line := by
  refine ⟨fun h => ?_, fun tag => ⟨fun hnone left right hseam hforms => ?_, fun h => ?_⟩,
    fun a h => valueIn?_strip h⟩
  · have hnone := find?_eq_none_of_not_forms h
    exact ⟨hnone, strip_strip_of_find?_eq_none hnone⟩
  · have hocc : tag.OccursIn (tag.remove line) := by
      rw [hseam.eq_remove]
      exact hforms.occursIn
    exact find?_eq_none_iff.mp hnone
      ⟨tag, List.mem_singleton_self tag, occursIn_trim_iff.mpr hocc⟩
  · refine find?_eq_none_of_not_forms fun later left right hseam other hmem _ => ?_
    rw [List.mem_singleton.mp hmem]
    exact h left right (stripSeam_singleton.mp hseam).2

/-- A stop tag between two words: nothing comes together. -/
theorem strip_clean_betweenWords :
    find? [.stop] (strip [.stop] "X1 G80 Z2".toList) = none ∧
    Address.x.valueIn? (strip [.stop] "X1 G80 Z2".toList) =
      Address.x.valueIn? "X1 G80 Z2".toList := by
  have hnot : ∀ s : Text, find? [.stop] s = none → ¬ Tag.stop.OccursIn s := fun s hs hocc =>
    find?_eq_none_iff.mp hs ⟨.stop, List.mem_singleton_self _, hocc⟩
  have hseam : ∀ later left right, StripSeam [.stop] "X1 G80 Z2".toList later left right →
      left = "X1 ".toList ∧ right = "Z2".toList := by
    intro later left right h
    have hends : endsBefore " Z2".toList = true := by decide
    exact (seam_iff_of_once (hnot "X1 ".toList (by decide)) hends (hnot _ (by decide))).mp
      (stripSeam_singleton.mp h).2
  obtain ⟨hclean, -, hwords⟩ := strip_clean [.stop] "X1 G80 Z2".toList
  refine ⟨(hclean ?_).1, hwords .x ?_⟩
  · intro later left right h tag hmem _ hforms
    obtain ⟨rfl, rfl⟩ := hseam later left right h
    rw [List.mem_singleton.mp hmem] at hforms
    exact hnot "X1 Z2".toList (by decide) hforms.occursIn
  · intro later left right h hlengthens
    obtain ⟨rfl, rfl⟩ := hseam later left right h
    have hnumeric : Numeral.IsNumeric 'Z' := hlengthens.isNumeric
    exact absurd hnumeric (by simp [Numeral.IsNumeric])

/-- **Tags and words do come together.**  Without its stop tag the first line is a stop tag, and the
word of the second one is another number. -/
theorem strip_not_clean :
    find? [.stop] (strip [.stop] "G8G80 0".toList) = some .stop ∧
    strip [.stop] (strip [.stop] "G8G80 0".toList) ≠ strip [.stop] "G8G80 0".toList ∧
    Address.x.valueIn? (strip [.stop] "X1G80 2".toList) ≠
      Address.x.valueIn? "X1G80 2".toList := by
  refine ⟨by decide, by decide, by decide +kernel⟩

end DrillCycles.Tag
