import DrillCycles.Proofs.Tag.Occurrence
import DrillCycles.Proofs.Text.Trim

/-!
# Taking tags out of a text

`Tag.remove` walks through a text once.  What it does is said here without the walk, in terms of
where tags stand.

* **`Cut`** relates a text to its *fragments*, the pieces of text between the occurrences of one tag,
  each occurrence taken with one space behind it.
* **`exists_cut`** says that `Tag.remove` joins exactly these fragments.  A tag that stands in a
  fragment stands in the text as well (`occursIn_of_cut`), so a tag that was not there before can only
  come from the joining.
* **`length_remove_lt`** says that a text with the tag gets shorter, and **`strip_of_not_anyIn`** that
  a text without any candidate is only trimmed.
-/

namespace DrillCycles.Tag

variable {tag other : Tag} {candidates : List Tag} {c : Char} {s t : Text}

/-! ### One step of the walk -/

lemma removeFrom_eq (tag : Tag) (kept : Text) (skip : Nat) (t : Text) :
    removeFrom tag kept skip t = kept.reverse ++ tag.remove (t.drop skip) := by
  induction t generalizing kept skip with
  | nil => simp [removeFrom, remove]
  | cons c t ih =>
      cases skip with
      | succ n => rw [removeFrom, ih, List.drop_succ_cons]
      | zero =>
          rw [List.drop_zero, remove, removeFrom, removeFrom]
          split
          · rw [ih, ih, List.reverse_nil, List.nil_append]
          · rw [ih, ih]
            simp

@[simp] lemma remove_nil (tag : Tag) : tag.remove [] = [] := rfl

lemma remove_cons_of_not_heads (h : ¬ tag.heads (c :: t) = true) :
    tag.remove (c :: t) = c :: tag.remove t := by
  rw [remove, removeFrom, if_neg h, removeFrom_eq]
  simp

/-- A text without the space at its start, if it has one. -/
def withoutSpace : Text → Text
  | ' ' :: t => t
  | t => t

lemma withoutSpace_suffix (t : Text) : withoutSpace t <:+ t := by
  unfold withoutSpace
  split
  · exact List.suffix_cons _ _
  · exact List.suffix_refl _

/-- A tag at the start is taken out with one space behind it. -/
lemma remove_code_append (h : endsBefore t = true) :
    tag.remove (tag.code ++ t) = tag.remove (withoutSpace t) := by
  have hheads : tag.heads (tag.code ++ t) = true := heads_iff.mpr ⟨t, rfl, h⟩
  have hrest : (tag.code ++ t).drop (tag.restLength (tag.code ++ t) + 1) = withoutSpace t := by
    have hdrop : (tag.code ++ t).drop tag.code.length = t := List.drop_left
    rw [restLength, hdrop]
    unfold withoutSpace
    split
    · next hspace =>
        obtain ⟨rest, rfl⟩ : ∃ rest, t = ' ' :: rest := by
          cases t <;> simp_all
        rw [length_code, ← List.drop_drop, ← length_code tag, hdrop]
        simp
    · next hspace =>
        have hlen : tag.code.length - 1 + 1 = tag.code.length := by rw [length_code]
        rw [hlen, hdrop]
        split
        · simp at hspace
        · rfl
  cases hcode : tag.code ++ t with
  | nil => exact absurd (List.append_eq_nil_iff.mp hcode).1 (code_ne_nil tag)
  | cons c rest =>
      rw [hcode] at hheads hrest
      rw [remove, removeFrom, if_pos hheads, removeFrom_eq, ← hrest]
      simp

/-! ### What stays -/

lemma remove_of_not_occursIn (h : ¬ tag.OccursIn t) : tag.remove t = t := by
  induction t with
  | nil => rfl
  | cons c t ih =>
      rw [occursIn_cons, not_or] at h
      rw [remove_cons_of_not_heads h.1, ih h.2]

/-- Occurrences survive a longer text in front of them. -/
lemma OccursIn.append_left (s : Text) (h : tag.OccursIn t) : tag.OccursIn (s ++ t) := by
  obtain ⟨i, before, after, rfl, -, hends⟩ := h
  exact ⟨_, s ++ before, after, by simp, rfl, hends⟩

lemma OccursIn.of_suffix (hsuffix : s <:+ t) (h : tag.OccursIn s) : tag.OccursIn t := by
  obtain ⟨before, rfl⟩ := hsuffix
  exact h.append_left before

/-- Occurrences survive behind them whatever does not continue a number. -/
lemma OccursIn.append_right (hends : endsBefore t = true) (h : tag.OccursIn s) :
    tag.OccursIn (s ++ t) := by
  obtain ⟨i, before, after, rfl, hlen, hafter⟩ := h
  refine ⟨i, before, after ++ t, by simp, hlen, ?_⟩
  cases after with
  | nil => exact hends
  | cons c after => exact hafter

lemma endsBefore_code_append (tag : Tag) (t : Text) : endsBefore (tag.code ++ t) = true := by
  cases tag <;> rfl

/-! ### Fragments -/

/-- **The fragments of a text.**  The text is cut at the occurrences of a tag from the left; the code
and one space behind it belong to no fragment. -/
inductive Cut (tag : Tag) : Text → List Text → Prop
  /-- A text without the tag is one fragment. -/
  | whole {t : Text} (h : ¬ tag.OccursIn t) : Cut tag t [t]
  /-- The first fragment ends where the tag stands first. -/
  | next {first after : Text} {fragments : List Text} (hfirst : ¬ tag.OccursIn first)
      (hends : endsBefore after = true) (hrest : Cut tag (withoutSpace after) fragments) :
      Cut tag (first ++ tag.code ++ after) (first :: fragments)

/-- A text with the tag, cut where the tag stands first. -/
lemma exists_first_cut (h : tag.OccursIn t) : ∃ first after : Text,
    t = first ++ tag.code ++ after ∧ endsBefore after = true ∧ ¬ tag.OccursIn first ∧
      tag.remove t = first ++ tag.remove (withoutSpace after) := by
  induction t with
  | nil => exact absurd h not_occursIn_nil
  | cons c t ih =>
      by_cases hheads : tag.heads (c :: t) = true
      · obtain ⟨after, heq, hends⟩ := heads_iff.mp hheads
        exact ⟨[], after, heq, hends, not_occursIn_nil, by rw [heq, remove_code_append hends]; rfl⟩
      · have htail : tag.OccursIn t := (occursIn_cons.mp h).resolve_left hheads
        obtain ⟨first, after, rfl, hends, hfirst, hremove⟩ := ih htail
        refine ⟨c :: first, after, rfl, hends, fun hocc => ?_, ?_⟩
        · -- An occurrence at the start of the fragment would be one at the start of the text.
          rcases occursIn_cons.mp hocc with hc | hc
          · refine hheads (occursAt_zero.mp ?_)
            obtain ⟨rest, hrest, hrestEnds⟩ := heads_iff.mp hc
            refine ⟨[], rest ++ (tag.code ++ after), by simp [hrest, ← List.cons_append], rfl, ?_⟩
            cases rest with
            | nil => exact endsBefore_code_append tag after
            | cons d rest => exact hrestEnds
          · exact hfirst hc
        · rw [remove_cons_of_not_heads hheads, hremove, List.cons_append]

/-- Removing a tag joins the fragments. -/
theorem exists_cut (tag : Tag) (t : Text) :
    ∃ fragments, Cut tag t fragments ∧ tag.remove t = fragments.flatten := by
  induction hn : t.length using Nat.strong_induction_on generalizing t with
  | _ n ih =>
      by_cases hocc : tag.OccursIn t
      · obtain ⟨first, after, rfl, hends, hfirst, hremove⟩ := exists_first_cut hocc
        have hshort : (withoutSpace after).length < n := by
          have hle := (withoutSpace_suffix after).length_le
          simp only [List.length_append, length_code] at hn
          omega
        obtain ⟨fragments, hcut, hflat⟩ := ih _ hshort _ rfl
        exact ⟨first :: fragments, .next hfirst hends hcut, by rw [hremove, hflat]; rfl⟩
      · exact ⟨[t], .whole hocc, by rw [remove_of_not_occursIn hocc]; simp⟩

/-- A tag that stands in a fragment stands in the text. -/
lemma occursIn_of_cut {fragments : List Text} {fragment : Text} (hcut : Cut tag t fragments)
    (hmem : fragment ∈ fragments) (h : other.OccursIn fragment) : other.OccursIn t := by
  induction hcut with
  | whole => simpa [List.mem_singleton.mp hmem] using h
  | @next first after fragments hfirst hends hrest ih =>
      rcases List.mem_cons.mp hmem with rfl | hmem
      · rw [List.append_assoc]
        exact h.append_right (endsBefore_code_append tag after)
      · exact ((ih hmem).of_suffix (withoutSpace_suffix after)).append_left _

/-- No fragment holds the tag itself. -/
lemma not_occursIn_of_cut {fragments : List Text} {fragment : Text} (hcut : Cut tag t fragments)
    (hmem : fragment ∈ fragments) : ¬ tag.OccursIn fragment := by
  induction hcut with
  | whole h => simpa [List.mem_singleton.mp hmem] using h
  | next hfirst hends hrest ih =>
      rcases List.mem_cons.mp hmem with rfl | hmem
      · exact hfirst
      · exact ih hmem

/-! ### Lengths -/

lemma remove_sublist (tag : Tag) (t : Text) : (tag.remove t).Sublist t := by
  obtain ⟨fragments, hcut, hflat⟩ := exists_cut tag t
  rw [hflat]
  clear hflat
  induction hcut with
  | whole => simp
  | @next first after fragments hfirst hends hrest ih =>
      rw [List.flatten_cons, List.append_assoc]
      refine (List.Sublist.refl first).append ?_
      exact (ih.trans (withoutSpace_suffix after).sublist).trans (List.sublist_append_right _ _)

/-- A text with the tag gets shorter. -/
lemma length_remove_lt (h : tag.OccursIn t) : (tag.remove t).length < t.length := by
  obtain ⟨first, after, rfl, -, -, hremove⟩ := exists_first_cut h
  have hrest := (remove_sublist tag (withoutSpace after)).length_le
  have hspace := (withoutSpace_suffix after).length_le
  simp only [hremove, List.length_append, length_code]
  omega

lemma strip_sublist (candidates : List Tag) (t : Text) : (strip candidates t).Sublist t := by
  rw [strip]
  refine (Text.trim_sublist _).trans ?_
  induction candidates generalizing t with
  | nil => simp
  | cons tag candidates ih => exact (ih _).trans (remove_sublist tag t)

/-- Without a candidate in it, a text is only trimmed. -/
lemma strip_of_not_anyIn (h : ¬ AnyIn candidates t) : strip candidates t = t.trim := by
  rw [strip]
  congr 1
  induction candidates with
  | nil => rfl
  | cons tag candidates ih =>
      simp only [AnyIn, List.mem_cons, exists_eq_or_imp, not_or] at h
      rw [List.foldl_cons, remove_of_not_occursIn h.1]
      exact ih h.2

end DrillCycles.Tag
